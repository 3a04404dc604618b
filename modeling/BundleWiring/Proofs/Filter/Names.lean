import BundleWiring.Filter.OfAttributes
import BundleWiring.Proofs.Filter.RoundTrip

/-!
# Names in Filters

A filter is read from its written form exactly if it is well formed, and that of a filter for given
attributes depends on nothing but the names of the attributes: their values are escaped, and the
conditions for them are built as they are read. This module proves:

- `WellFormed.properName`: the names of a well-formed filter are proper;
- `mem_names_ofAttributes`: the names of a filter for given attributes;
- `parse_text_ofAttributes_iff`: when a filter for given attributes is read from its written form.
-/

namespace BundleWiring.Filter

mutual

/-- The attributes of all conditions of a filter, in order. -/
def names : Filter → List String
  | .and fs => namesAll fs
  | .or fs => namesAll fs
  | .not f => f.names
  | f => f.subject?.toList

/-- The attributes of all conditions of several filters. -/
def namesAll : List Filter → List String
  | [] => []
  | f :: fs => f.names ++ namesAll fs

end

variable {name : String} {f : Filter} {fs : List Filter} {attributes : Attributes}

/-- The attributes of several filters are those of each of them. -/
theorem mem_namesAll : name ∈ namesAll fs ↔ ∃ f ∈ fs, name ∈ f.names := by
  induction fs with
  | nil => simp [namesAll]
  | cons f fs ih => simp [namesAll, ih]

/-- A filter is read from its written form exactly if it is well formed. -/
theorem parse_text_iff_wellFormed : parse f.text = .ok f ↔ WellFormed f := by
  rw [parse_eq_ok_iff_isFilter]
  refine ⟨Grammar.IsFilter.wellFormed, fun h => ?_⟩
  rw [text, String.toList_ofList]
  exact h.isFilter_chars

/-- The attributes of a well-formed filter have proper names. -/
theorem WellFormed.properName (h : WellFormed f) (hname : name ∈ f.names) : ProperName name := by
  -- Operators name what their members name; a condition names its own attribute.
  induction h with
  | all => simp [names, subject?] at hname
  | and _ _ ih =>
    rw [names, mem_namesAll] at hname
    obtain ⟨f, hf, hname⟩ := hname
    exact ih f hf hname
  | or _ _ ih =>
    rw [names, mem_namesAll] at hname
    obtain ⟨f, hf, hname⟩ := hname
    exact ih f hf hname
  | not _ ih =>
    rw [names] at hname
    exact ih hname
  | comparison _ _ hproper | substring hproper _ | present hproper =>
    obtain rfl : name = _ := by simpa [names, subject?] using hname
    exact hproper

/-! ### Filters for given attributes -/

/-- A conjunction adds no attribute, also if it is a single filter. -/
theorem names_conjunction (fs : List Filter) : (conjunction fs).names = namesAll fs := by
  unfold conjunction
  split
  · rfl
  · rw [namesAll, namesAll, List.append_nil]
  · rw [names]

/-- A conjunction of well-formed filters is well formed, also if it is a single filter. -/
theorem wellFormed_conjunction (h : ∀ f ∈ fs, WellFormed f) : WellFormed (conjunction fs) := by
  unfold conjunction
  split
  · exact .all
  · exact h _ (List.mem_singleton_self _)
  next hne _ => exact .and hne h

/-- The condition for some pieces is about its own attribute. -/
theorem names_ofPieces (name : String) (pieces : List String) :
    (ofPieces name pieces).names = [name] := by
  unfold ofPieces
  split <;> rfl

/-- The conditions for an attribute are about nothing else. -/
theorem mem_namesAll_ofAttribute {other : String} (value : AttrValue) :
    other ∈ namesAll (ofAttribute name value) ↔ other = name := by
  unfold ofAttribute
  split
  next r =>
    -- An end of a range is a comparison or the negation of one.
    obtain ⟨floor, floorIncluded, ceiling, ceilingIncluded⟩ := r
    cases floorIncluded <;> cases ceiling <;> cases ceilingIncluded <;>
      simp [ofRange, namesAll, names, subject?]
  next => simp [namesAll, names_ofPieces]

/-- The filter for given attributes is about these attributes and no others. -/
theorem mem_names_ofAttributes : name ∈ (ofAttributes attributes).names ↔
    name ∈ attributes.names := by
  rw [ofAttributes, names_conjunction, mem_namesAll]
  constructor
  · rintro ⟨f, hf, hname⟩
    obtain ⟨⟨other, value⟩, he, hf⟩ := List.mem_flatMap.mp hf
    obtain rfl := (mem_namesAll_ofAttribute value).mp (mem_namesAll.mpr ⟨f, hf, hname⟩)
    exact List.mem_map_of_mem he
  · intro hname
    obtain ⟨⟨_, value⟩, he, rfl⟩ := List.mem_map.mp hname
    obtain ⟨f, hf, hname⟩ := mem_namesAll.mp ((mem_namesAll_ofAttribute value).mpr rfl)
    exact ⟨f, List.mem_flatMap.mpr ⟨_, he, hf⟩, hname⟩

/-- The conditions for an attribute with a proper name are well formed, whatever its value is. -/
theorem wellFormed_of_mem_ofAttribute {value : AttrValue} (hname : ProperName name)
    (hf : f ∈ ofAttribute name value) : WellFormed f := by
  unfold ofAttribute at hf
  split at hf
  next r =>
    -- The lower end is always there, the upper one may be missing.
    rcases List.mem_cons.mp hf with rfl | hf
    · split
      · exact .comparison _ _ hname
      · exact .not (.comparison _ _ hname)
    · obtain ⟨ceiling, -, rfl⟩ := Option.map_eq_some_iff.mp (Option.mem_toList.mp hf)
      split
      · exact .comparison _ _ hname
      · exact .not (.comparison _ _ hname)
  next =>
    obtain rfl := List.mem_singleton.mp hf
    exact wellFormed_ofPieces hname (interior_piecesOf_ne_empty _)

/-- A filter for given attributes is read from its written form exactly if the names of the
attributes are proper. -/
theorem parse_text_ofAttributes_iff (attributes : Attributes) :
    parse (ofAttributes attributes).text = .ok (ofAttributes attributes) ↔
      ∀ name ∈ attributes.names, ProperName name := by
  rw [parse_text_iff_wellFormed]
  refine ⟨fun h name hname => h.properName (mem_names_ofAttributes.mpr hname), fun h => ?_⟩
  -- Each condition comes from an attribute, whose name is proper.
  refine wellFormed_conjunction fun f hf => ?_
  obtain ⟨e, he, hf⟩ := List.mem_flatMap.mp hf
  exact wellFormed_of_mem_ofAttribute (h e.1 (List.mem_map_of_mem he)) hf

end BundleWiring.Filter
