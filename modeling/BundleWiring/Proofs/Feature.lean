import BundleWiring.Feature
import BundleWiring.Proofs.Filter.OfAttributes
import BundleWiring.Proofs.Manifest.Readers
import BundleWiring.Proofs.Version.Syntax

/-!
# What a Feature Requires

A feature requires its bundles and the features that it depends on by their identities: the name,
the kind and a range of versions. For a bundle the range is the version of the resource at its
location, which the filter states by two comparisons with the written version; for a feature it is
given by a text of one of three forms. This module proves:

- `accepts_identityRequirement_iff`: which identities meet a requirement for an identity;
- `FeatureDependency.forall_includes_iff_admits` and `FeatureDependency.fails_range_iff`: the
  versions that a dependency admits, and the texts that give none;
- `Feature.resource_requirements`: the requirements of a feature in their order, what each of them
  accepts, and what makes a feature fail.
-/

namespace BundleWiring

open BundleWiring.Filter Text

/-- The range of one version holds this version only. -/
theorem VersionRange.includes_exact_iff {v w : Version} :
    (exact v).includes w = true ↔ w = v := by
  rw [includes, Bool.and_eq_true]
  constructor
  · rintro ⟨hlow, hhigh⟩
    exact Std.LawfulEqOrd.eq_of_compare (Std.OrientedCmp.isLE_antisymm hhigh hlow)
  · rintro rfl
    simp [exact, Std.ReflOrd.compare_self]

/-! ### Identities -/

section Identities

variable {name kind : String} {range : Option VersionRange} {r : Requirement}

/-- A requirement for an identity can always be made. -/
theorem exists_identityRequirement (name kind : String) (range : Option VersionRange) :
    ∃ r, identityRequirement name kind range = .ok r :=
  ⟨_, rfl⟩

/-- A requirement for an identity asks for the name and the kind, and for the range if there is one.
-/
theorem identityRequirement_eq_ok (h : identityRequirement name kind range = .ok r) :
    r.ns = Names.identity ∧ r.filter = .ofAttributes (.ofList <|
      (Names.identity, .str name) :: (Names.type, .str kind) ::
        (range.map fun s => (Names.version, AttrValue.range s)).toList) := by
  obtain ⟨f, hf, hmade⟩ := bind_eq_ok_iff.mp h
  obtain rfl := Except.ok.inj hf
  obtain ⟨hns, -, -, hfilter⟩ := Requirement.withFilter_eq_ok hmade
  exact ⟨hns, hfilter⟩

/-- A requirement for a plain name and a plain kind accepts the identities of this name and this
kind, and of a version in the range if there is one. -/
theorem accepts_identityRequirement_iff (h : identityRequirement name kind range = .ok r)
    (hname : isPlain name = true) (hkind : isPlain kind = true) (x : Resource) :
    r.accepts (Resource.identity x.name x.kind x.version) = true ↔
      x.name = name ∧ x.kind = kind ∧ ∀ s ∈ range, s.includes x.version = true := by
  obtain ⟨hns, hfilter⟩ := identityRequirement_eq_ok h
  have hnames : (ofAttributes (.ofList
      [(Names.identity, .str name), (Names.type, .str kind)])).accepts
        (Resource.identityAttributes x.name x.kind x.version) = true ↔
          x.name = name ∧ x.kind = kind := by
    show (ofAttributes ((Table.ofList [(Names.identity, .str name)]).insert Names.type
      (.str kind))).accepts _ = true ↔ _
    rw [accepts_ofAttributes_insert rfl, Bool.and_eq_true, accepts_ofAttributes_name_iff hname rfl,
      acceptsAll_ofAttribute_str_iff hkind rfl, eq_comm, eq_comm (a := kind)]
  -- An identity has no mandatory attributes, so only the filter decides.
  have haccepts : r.accepts (Resource.identity x.name x.kind x.version) =
      r.filter.accepts (Resource.identityAttributes x.name x.kind x.version) :=
    Requirement.accepts_eq_of_notMem_mandatory hns (Capability.notMem_mandatory rfl)
  rw [haccepts, hfilter, ← and_assoc, ← hnames]
  cases range with
  | none => simp
  | some s =>
    show (ofAttributes ((Table.ofList [(Names.identity, .str name), (Names.type, .str kind)]).insert
      Names.version (.range s))).accepts _ = true ↔ _
    rw [accepts_ofAttributes_insert rfl, Bool.and_eq_true, ofAttribute,
      acceptsAll_ofRange_version rfl]
    simp

end Identities

/-! ### Dependencies -/

namespace FeatureDependency

variable {d : FeatureDependency} {v : Version}

/-- A text that starts as an interval does. -/
def StartsInterval (text : String) : Prop :=
  ∃ bracket ∈ ['[', '('], text.toList.head? = some bracket

/-- The versions that a dependency admits: all of them, those in an interval, or one. -/
inductive Admits (d : FeatureDependency) (v : Version) : Prop where
  /-- A blank text admits all versions. -/
  | blank : trimText d.version = "" → Admits d v
  /-- The lowest version admits all versions. -/
  | lowest : trimText d.version = "0.0.0" → Admits d v
  /-- An interval admits the versions in it. -/
  | interval {range : VersionRange} : StartsInterval (trimText d.version) →
    VersionRange.parse? (trimText d.version) = some range → range.includes v = true → Admits d v
  /-- A version admits itself. -/
  | exact : Version.parse? (trimText d.version) = some v → Admits d v

/-- The text of a dependency has none of the forms that say which versions it admits. -/
structure IsMalformed (d : FeatureDependency) : Prop where
  /-- The text is not blank. -/
  ne_blank : trimText d.version ≠ ""
  /-- The text is not the lowest version. -/
  ne_lowest : trimText d.version ≠ "0.0.0"
  /-- The text is no interval. -/
  not_interval : StartsInterval (trimText d.version) →
    VersionRange.parse? (trimText d.version) = none
  /-- The text is no version. -/
  not_version : Version.parse? (trimText d.version) = none

/-- How a dependency tells an interval from a version. -/
theorem startsInterval_iff {text : String} : StartsInterval text ↔
    (['['].isPrefixOf text.toList || ['('].isPrefixOf text.toList) = true := by
  unfold StartsInterval
  cases text.toList with
  | nil => simp
  | cons c s => simp [List.isPrefixOf, eq_comm (a := c)]

/-- A version starts with a digit, so that it is no interval. -/
theorem parse?_eq_none_of_startsInterval {text : String} (h : StartsInterval (trimText text)) :
    Version.parse? (trimText text) = none := by
  obtain ⟨bracket, hbracket, hhead⟩ := h
  rw [Option.eq_none_iff_forall_ne_some]
  intro v hv
  rw [trimText, String.toList_ofList] at hhead
  rw [Version.parse?_trimText] at hv
  have hdigit := Version.isDigit_of_parse? hv hhead
  rcases List.mem_pair.mp hbracket with rfl | rfl <;> cases hdigit

section Forms

variable (hsome : ¬ (trimText d.version = "" ∨ trimText d.version = "0.0.0"))
include hsome

/-- A text that starts as an interval is read as one. -/
theorem range_of_startsInterval (h : StartsInterval (trimText d.version)) :
    d.range = some <$> VersionRange.read (trimText d.version) := by
  unfold FeatureDependency.range
  simp only [if_neg hsome, if_pos (startsInterval_iff.mp h)]

/-- Any other text is read as a version. -/
theorem range_of_not_startsInterval (h : ¬ StartsInterval (trimText d.version)) :
    d.range = (fun v => some (.exact v)) <$> Version.read (trimText d.version) := by
  unfold FeatureDependency.range
  simp only [if_neg hsome, if_neg (mt startsInterval_iff.mpr h)]

/-- A dependency with an interval admits nothing but the versions in it. -/
theorem admits_iff_of_startsInterval (h : StartsInterval (trimText d.version)) : d.Admits v ↔
    ∃ s, VersionRange.parse? (trimText d.version) = some s ∧ s.includes v = true := by
  constructor
  · rintro (hv | hv | ⟨-, hs, hv⟩ | hv)
    · exact absurd (.inl hv) hsome
    · exact absurd (.inr hv) hsome
    · exact ⟨_, hs, hv⟩
    · rw [parse?_eq_none_of_startsInterval h] at hv
      cases hv
  · rintro ⟨s, hs, hv⟩
    exact .interval h hs hv

/-- Any other dependency that does not admit all versions admits one. -/
theorem admits_iff_of_not_startsInterval (h : ¬ StartsInterval (trimText d.version)) :
    d.Admits v ↔ Version.parse? (trimText d.version) = some v := by
  constructor
  · rintro (hv | hv | ⟨hv, -, -⟩ | hv)
    · exact absurd (.inl hv) hsome
    · exact absurd (.inr hv) hsome
    · exact absurd hv h
    · exact hv
  · exact .exact

end Forms

/-- The range of a dependency holds the versions that the dependency admits. -/
theorem forall_includes_iff_admits {range : Option VersionRange} (h : d.range = .ok range) :
    (∀ s ∈ range, s.includes v = true) ↔ d.Admits v := by
  by_cases hall : trimText d.version = "" ∨ trimText d.version = "0.0.0"
  -- Without a range nothing restricts the versions.
  · obtain rfl : none = range := Except.ok.inj ((if_pos hall).symm.trans h)
    exact iff_of_true nofun (hall.elim .blank .lowest)
  by_cases hinterval : StartsInterval (trimText d.version)
  · rw [range_of_startsInterval hall hinterval] at h
    obtain ⟨s, hs, rfl⟩ := map_eq_ok_iff.mp h
    rw [admits_iff_of_startsInterval hall hinterval, elim_eq_ok_iff.mp hs]
    simp
  · rw [range_of_not_startsInterval hall hinterval] at h
    obtain ⟨w, hw, rfl⟩ := map_eq_ok_iff.mp h
    rw [admits_iff_of_not_startsInterval hall hinterval, elim_eq_ok_iff.mp hw]
    simp only [Option.mem_some, forall_eq', VersionRange.includes_exact_iff, Option.some.injEq]
    exact eq_comm

/-- A dependency gives no range if its text is malformed. -/
theorem fails_range_iff : Fails d.range ↔ d.IsMalformed := by
  by_cases hall : trimText d.version = "" ∨ trimText d.version = "0.0.0"
  · rw [show d.range = .ok none from if_pos hall]
    exact iff_of_false (not_fails_ok none) fun h => hall.elim h.ne_blank h.ne_lowest
  obtain ⟨hblank, hlowest⟩ := not_or.mp hall
  by_cases hinterval : StartsInterval (trimText d.version)
  · rw [range_of_startsInterval hall hinterval, fails_map_iff, VersionRange.read, fails_elim_iff]
    exact ⟨fun h => ⟨hblank, hlowest, fun _ => h, parse?_eq_none_of_startsInterval hinterval⟩,
      fun h => h.not_interval hinterval⟩
  · rw [range_of_not_startsInterval hall hinterval, fails_map_iff, Version.read, fails_elim_iff]
    exact ⟨fun h => ⟨hblank, hlowest, fun h' => absurd h' hinterval, h⟩, fun h => h.not_version⟩

end FeatureDependency

/-! ### Features -/

namespace Feature

variable {known : Table Resource} {b : FeatureBundle} {d : FeatureDependency} {r : Requirement}

/-- A requirement for the bundle at a known location: if its name and its kind are plain, the
requirement accepts the identities of this name, this kind and this version. -/
def RequiresKnown (known : Table Resource) (b : FeatureBundle) (r : Requirement) : Prop :=
  ∃ bundle, known.get? b.location = some bundle ∧
    (isPlain bundle.name = true → isPlain bundle.kind = true → ∀ x : Resource,
      r.accepts (Resource.identity x.name x.kind x.version) = true ↔
        x.name = bundle.name ∧ x.kind = bundle.kind ∧ x.version = bundle.version)

/-- A requirement for a feature: if its name is plain, the requirement accepts the identities of
features of this name and of a version that the dependency admits. -/
def RequiresAdmitted (d : FeatureDependency) (r : Requirement) : Prop :=
  isPlain d.name = true → ∀ x : Resource,
    r.accepts (Resource.identity x.name x.kind x.version) = true ↔
      x.name = d.name ∧ x.kind = Names.featureKind ∧ d.Admits x.version

/-- The requirement for a bundle of a feature asks for the resource that is known at its location.
-/
theorem requiresKnown_of_bundleRequirement {f : Feature}
    (h : f.bundleRequirement known b = .ok r) : RequiresKnown known b r := by
  unfold bundleRequirement at h
  split at h
  next => cases h
  next bundle hbundle =>
    refine ⟨bundle, hbundle, fun hname hkind x => ?_⟩
    rw [accepts_identityRequirement_iff h hname hkind]
    simp [VersionRange.includes_exact_iff]

/-- The requirement for a dependency accepts the features that the dependency admits. -/
theorem requiresAdmitted_of_requirement (h : d.requirement = .ok r) : RequiresAdmitted d r := by
  obtain ⟨range, hrange, h⟩ := bind_eq_ok_iff.mp h
  intro hname x
  rw [accepts_identityRequirement_iff h hname (by decide),
    FeatureDependency.forall_includes_iff_admits hrange]

/-- A bundle of a feature gives no requirement exactly if nothing is known at its location. -/
theorem fails_bundleRequirement_iff {f : Feature} :
    Fails (f.bundleRequirement known b) ↔ known.get? b.location = none := by
  unfold bundleRequirement
  split
  next hnone => exact iff_of_true (fails_error _) hnone
  next bundle hbundle =>
    obtain ⟨r, hr⟩ := exists_identityRequirement bundle.name bundle.kind
      (some (.exact bundle.version))
    rw [hr, hbundle]
    exact iff_of_false (not_fails_ok r) nofun

/-- A dependency gives no requirement exactly if its text is malformed. -/
theorem fails_requirement_iff : Fails d.requirement ↔ d.IsMalformed := by
  rw [← FeatureDependency.fails_range_iff, FeatureDependency.requirement]
  refine (fails_bind_iff fun range => ?_).trans (iff_of_eq (or_false _))
  -- Once there is a range, nothing is left to fail.
  obtain ⟨r, hr⟩ := exists_identityRequirement d.name Names.featureKind range
  rw [hr]
  exact iff_of_false (not_fails_ok r) not_false

/-- A feature fails if one of its parts does, because no part depends on the others. -/
theorem fails_resource_iff {f : Feature} : Fails (f.resource known) ↔
    (∃ b ∈ f.bundles, b.dependency = false ∧ known.get? b.location = none) ∨
    (∃ d ∈ f.dependencies, d.IsMalformed) ∨
    (∃ text ∈ f.capabilities, Fails (Manifest.readCapabilities text)) ∨
    ∃ text ∈ f.requirements, Fails (Manifest.readRequirements text) := by
  have hbundles : Fails ((f.bundles.filter (!·.dependency)).mapM (f.bundleRequirement known)) ↔
      ∃ b ∈ f.bundles, b.dependency = false ∧ known.get? b.location = none := by
    simp only [fails_mapM_iff, fails_bundleRequirement_iff, List.mem_filter, Bool.not_eq_true',
      and_assoc]
  have hdependencies : Fails (f.dependencies.mapM (·.requirement)) ↔
      ∃ d ∈ f.dependencies, d.IsMalformed := by
    simp only [fails_mapM_iff, fails_requirement_iff]
  rw [← hbundles, ← hdependencies, ← fails_mapM_iff, ← fails_mapM_iff]
  refine fails_bind_iff fun bundles => fails_bind_iff fun dependencies =>
    fails_bind_iff fun capabilities => ?_
  exact fails_map_iff

/-- A feature requires each bundle that is no dependency, then each feature that it depends on, then
what its further texts require, in order. -/
theorem resource_requirements (f : Feature) (known : Table Resource) :
    (∀ b, f.resource known = .ok b → ∃ bundles dependencies others,
      b.requirements = bundles ++ dependencies ++ others.flatten ∧
      List.Forall₂ (RequiresKnown known) (f.bundles.filter (!·.dependency)) bundles ∧
      List.Forall₂ RequiresAdmitted f.dependencies dependencies ∧
      List.Forall₂ (fun text rs => Manifest.readRequirements text = .ok rs) f.requirements
        others) ∧
    (Fails (f.resource known) ↔
      (∃ b ∈ f.bundles, b.dependency = false ∧ known.get? b.location = none) ∨
      (∃ d ∈ f.dependencies, d.IsMalformed) ∨
      (∃ text ∈ f.capabilities, Fails (Manifest.readCapabilities text)) ∨
      ∃ text ∈ f.requirements, Fails (Manifest.readRequirements text)) := by
  refine ⟨fun b h => ?_, fails_resource_iff⟩
  unfold resource at h
  simp only [bind_eq_ok_iff] at h
  obtain ⟨bundles, hbundles, dependencies, hdependencies, capabilities, -, others, hothers, h⟩ := h
  obtain rfl := Except.ok.inj h
  refine ⟨bundles, dependencies, others, rfl, ?_, ?_, mapM_eq_ok_iff.mp hothers⟩
  · exact (mapM_eq_ok_iff.mp hbundles).imp fun _ _ => requiresKnown_of_bundleRequirement
  · exact (mapM_eq_ok_iff.mp hdependencies).imp fun _ _ => requiresAdmitted_of_requirement

/-- A bundle at a known location. -/
def coreBundle : Resource :=
  ⟨"acme-core", Names.bundleKind, .ofNumbers 1 2 0, false, [], []⟩

/-- A feature of a bundle, of another one that is installed on demand, and of a feature. -/
def coreFeature : Feature where
  name := "acme"
  version := .zero
  bundles := [⟨"mvn:core", false⟩, ⟨"mvn:extra", true⟩]
  dependencies := [⟨"base", " [1,2) "⟩]
  capabilities := ["acme.api;acme.api=rest"]
  requirements := ["acme.db"]

/-- The feature requires the bundle in its version, and the other feature in a range. -/
theorem exists_requirements_coreFeature : ∃ b bundle dependency others,
    coreFeature.resource (.ofList [("mvn:core", coreBundle)]) = .ok b ∧
      b.requirements = bundle :: dependency :: others ∧
      (∀ x : Resource, bundle.accepts (Resource.identity x.name x.kind x.version) = true ↔
        x.name = "acme-core" ∧ x.kind = Names.bundleKind ∧ x.version = .ofNumbers 1 2 0) ∧
      ∀ x : Resource, dependency.accepts (Resource.identity x.name x.kind x.version) = true ↔
        x.name = "base" ∧ x.kind = Names.featureKind ∧
          FeatureDependency.Admits ⟨"base", " [1,2) "⟩ x.version := by
  obtain ⟨b, hb, -⟩ := exists_of_any_toOption
    (x := coreFeature.resource (.ofList [("mvn:core", coreBundle)])) (fun _ => true)
    (by decide +kernel)
  obtain ⟨bundles, dependencies, others, hrequirements, hbundles, hdependencies, -⟩ :=
    (resource_requirements _ _).1 b hb
  -- The feature has one bundle and one dependency, so that each list has one requirement.
  obtain ⟨bundle, bundles, ⟨core, hcore, hbundle⟩, hnone, rfl⟩ :=
    List.forall₂_cons_left_iff.mp hbundles
  obtain ⟨dependency, dependencies, hdependency, hnone', rfl⟩ :=
    List.forall₂_cons_left_iff.mp hdependencies
  obtain rfl := List.forall₂_nil_left_iff.mp hnone
  obtain rfl := List.forall₂_nil_left_iff.mp hnone'
  obtain rfl : coreBundle = core := Option.some.inj hcore
  exact ⟨b, bundle, dependency, others.flatten, hb, hrequirements, hbundle rfl rfl,
    hdependency rfl⟩

end Feature

end BundleWiring
