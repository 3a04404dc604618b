import BundleWiring.Proofs.Filter.OfAttributes
import BundleWiring.Proofs.Manifest.Readers

/-!
# Wiring as Manifests Ask for It

An import of a package and a requirement of a bundle state a name and a range of versions; an
exported package and a bundle state a name and a version. On the way from one manifest to the other
stand the filter that is made for the name and the range, its written versions, and the check of
mandatory attributes. This module proves that a requirement accepts a capability as the two clauses
say:

- `accepts_importedPackage_iff` and `accepts_requiredBundle_iff`: for one requirement and one
  capability with a given name and version;
- `resource_accepts_iff`: for the resources that two manifests describe, where every capability in
  the namespaces of packages and bundles comes from the manifest.
-/

namespace BundleWiring

open BundleWiring.Filter

/-- The empty text comes before all others. -/
theorem isLE_compare_empty (s : String) : (compare "" s).isLE = true := by
  show (compareOfLessAndEq "" s).isLE = true
  by_cases hs : s = ""
  · rw [hs]
    rfl
  · have hlt : "" < s := by
      rw [String.lt_iff]
      cases h : s.toList with
      | nil => exact absurd (String.toList_inj.mp h) hs
      | cons c t => exact List.nil_lt_cons c t
    rw [compareOfLessAndEq, if_pos hlt]
    rfl

/-- Every version lies in the range of all versions. -/
theorem VersionRange.includes_any (v : Version) : any.includes v = true := by
  have hthen {o o' : Ordering} (h : o.isLE = true) (h' : o'.isLE = true) :
      (o.then o').isLE = true :=
    Ordering.isLE_then_iff_and.mpr ⟨h, .inr h'⟩
  have hnumber (n : UInt32) : (compare 0 n).isLE = true := by
    rw [Std.isLE_compare]
    exact UInt32.zero_le
  have hfloor : (compare Version.zero v).isLE = true :=
    hthen (hnumber v.major) <| hthen (hnumber v.minor) <|
      hthen (hnumber v.micro) (isLE_compare_empty v.qualifier)
  rw [includes, Bool.and_eq_true]
  exact ⟨hfloor, rfl⟩

/-- Whether a version lies in the range in a text; without a text every version does. -/
def inRange (text? : Option String) (v : Version) : Bool :=
  text?.all fun text => (VersionRange.parse? text).any (·.includes v)

namespace Manifest

variable {c : HeaderClause} {r : Requirement}

/-- An import without further attributes asks for the package and, if its clause gives a version,
for the range in the text of the version. -/
theorem importedPackage_eq_ok {dynamic : Bool} {package : String}
    (h : importedPackage dynamic c package = .ok r)
    (hc : c.hasOnly [Names.version, Names.specificationVersion] = true) :
    r.ns = Names.package ∧
      match c.versionText? with
      | none => r.filter = .ofAttributes (.ofList [(Names.package, .str package)])
      | some text => ∃ range, VersionRange.parse? text = some range ∧ r.filter = .ofAttributes
          (.ofList [(Names.package, .str package), (Names.version, .range range)]) := by
  unfold importedPackage at h
  simp only [bind_eq_ok_iff] at h
  obtain ⟨text, htext, version, hversion, others, hothers, others', hothers', h⟩ := h
  obtain ⟨hns, hfilter⟩ := synthesizedRequirement_eq_ok h
  -- The version is read apart, so no attribute is left to be read one by one.
  have hnone : otherAttributes c = .ok [] := typedAttributes_eq_nil hc (by simp)
  obtain rfl : [] = others := Except.ok.inj (hnone.symm.trans hothers)
  obtain rfl : [] = others' := Except.ok.inj hothers'
  refine ⟨hns, ?_⟩
  have hversions := versions_of_packageVersion htext hversion
  cases hgiven : c.versionText? with
  | none =>
    rw [hgiven] at hversions
    rw [hversions] at hfilter
    exact hfilter
  | some given =>
    rw [hgiven] at hversions
    obtain ⟨range, hrange, rfl⟩ := hversions
    exact ⟨range, hrange, hfilter⟩

/-- A required bundle without further attributes asks for the bundle and a range of versions. -/
theorem requiredBundle_eq_ok {ns : String} {range : VersionRange} {bundle : String}
    (h : requiredBundle ns c range bundle = .ok r) (hc : c.hasOnly [Names.bundleVersion] = true) :
    r.ns = ns ∧ r.filter =
      .ofAttributes (.ofList [(ns, .str bundle), (Names.bundleVersion, .range range)]) := by
  unfold requiredBundle at h
  obtain ⟨others, hothers, h⟩ := bind_eq_ok_iff.mp h
  have hnone := typedAttributes_eq_nil hc (show _ ⊆ [ns, Names.bundleVersion] by simp)
  obtain rfl : [] = others := Except.ok.inj (hnone.symm.trans hothers)
  exact synthesizedRequirement_eq_ok h

/-- An import without further attributes accepts the packages of its name with a version in its
range, unless they have mandatory attributes besides the name. -/
theorem accepts_importedPackage_iff {dynamic : Bool} {package exported : String} {e : Capability}
    {v : Version} (hr : importedPackage dynamic c package = .ok r)
    (hc : c.hasOnly [Names.version, Names.specificationVersion] = true)
    (hpackage : isPlain package = true) (hns : e.ns = Names.package)
    (hname : e.attributes.get? Names.package = some (.str exported))
    (hversion : e.attributes.get? Names.version = some (.version v))
    (hmandatory : ∀ name ∈ e.mandatory, name = Names.package) :
    r.accepts e = true ↔ package = exported ∧ inRange c.versionText? v = true := by
  obtain ⟨hrns, hfilter⟩ := importedPackage_eq_ok hr hc
  -- The name of the package is one condition of the filter, whether or not it has a range.
  have hnamed (attributes : Attributes)
      (h : attributes.get? Names.package = some (.str package)) :
      e.namedBy (.ofAttributes attributes) = true := by
    rw [namedBy_iff]
    intro name hname
    rw [hmandatory name hname, mem_conjuncts_ofAttributes]
    exact ⟨_, h, rfl⟩
  rw [Requirement.accepts, hrns, hns, BEq.rfl, Bool.true_and]
  split at hfilter
  next hnone =>
    rw [hfilter, hnamed _ (by simp [Table.ofList, Table.get?_insert]), Bool.and_true,
      accepts_ofAttributes_name_iff hpackage hname, hnone]
    simp [inRange]
  next text hsome =>
    obtain ⟨range, hrange, hfilter⟩ := hfilter
    have hne : Names.package ≠ Names.version := by decide
    rw [hfilter, hnamed _ (by simp [Table.ofList, Table.get?_insert, hne]), Bool.and_true,
      accepts_ofAttributes_name_range_iff hne.symm hpackage hname hversion, hsome]
    simp [inRange, hrange]

/-- A required bundle without further attributes is a bundle of its name with a version in its
range, unless the bundle has mandatory attributes. -/
theorem accepts_requiredBundle_iff {range : VersionRange} {bundle name : String} {e : Capability}
    {v : Version} (hrange : bundleRange c = .ok range)
    (hr : requiredBundle Names.bundle c range bundle = .ok r)
    (hc : c.hasOnly [Names.bundleVersion] = true) (hbundle : isPlain bundle = true)
    (hns : e.ns = Names.bundle) (hname : e.attributes.get? Names.bundle = some (.str name))
    (hversion : e.attributes.get? Names.bundleVersion = some (.version v))
    (hmandatory : ∀ name, name ∉ e.mandatory) :
    r.accepts e = true ↔
      bundle = name ∧ inRange (c.attributes.get? Names.bundleVersion) v = true := by
  obtain ⟨hrns, hfilter⟩ := requiredBundle_eq_ok hr hc
  rw [Requirement.accepts_eq_of_notMem_mandatory (hrns.trans hns.symm) hmandatory, hfilter,
    accepts_ofAttributes_name_range_iff (by decide) hbundle hname hversion]
  -- A clause without a version gives the range of all versions, which leaves nothing to check.
  unfold bundleRange at hrange
  cases hgiven : c.attributes.get? Names.bundleVersion with
  | none =>
    rw [hgiven, Option.elim_none] at hrange
    obtain rfl : VersionRange.any = range := Except.ok.inj hrange
    simp [inRange, VersionRange.includes_any]
  | some text =>
    rw [hgiven, Option.elim_some] at hrange
    simp [inRange, elim_eq_ok_iff.mp hrange]

/-! ### Resources of two manifests -/

/-- A header has a clause of a kind if one of those that are read can be computed to be of it. -/
theorem exists_hasClause (text : String) (p : HeaderClause → Bool)
    (h : (clausesOf text).toOption.any (·.any p) = true) : ∃ c, HasClause text c ∧ p c = true := by
  obtain ⟨cs, hcs, hany⟩ := exists_of_any_toOption _ h
  obtain ⟨c, hc, hp⟩ := List.any_eq_true.mp hany
  exact ⟨c, ⟨cs, hcs, hc⟩, hp⟩

/-- Each path of an import without further attributes gives a requirement, which accepts a package
if the path is its name and the clause admits its version. -/
def ImportsAsWritten (m : Manifest) (b : Resource) (e : Capability) (exported : String)
    (v : Version) : Prop :=
  ∀ dynamic c, HasClause (m.header (importHeader dynamic)) c →
    c.hasOnly [Names.version, Names.specificationVersion] = true →
      ∀ package ∈ c.paths, isPlain package = true →
        ∃ r ∈ b.requirements, importedPackage dynamic c package = .ok r ∧
          (r.accepts e = true ↔ package = exported ∧ inRange c.versionText? v = true)

/-- Each path of a required bundle without further attributes gives a requirement, which accepts a
bundle if the path is its name and the clause admits its version. -/
def RequiresAsWritten (m : Manifest) (b : Resource) (e : Capability) (name : String)
    (v : Version) : Prop :=
  ∀ c, HasClause (m.header Names.requireBundleHeader) c →
    c.hasOnly [Names.bundleVersion] = true →
    ∃ range, bundleRange c = .ok range ∧ ∀ bundle ∈ c.paths, isPlain bundle = true →
      ∃ r ∈ b.requirements, requiredBundle Names.bundle c range bundle = .ok r ∧
        (r.accepts e = true ↔
          bundle = name ∧ inRange (c.attributes.get? Names.bundleVersion) v = true)

variable {m : Manifest} {config : Config} {uri : Option String} {b : Resource} {e : Capability}
  {v : Version}

/-- An exported package meets the imports of a resource as its manifest writes them. -/
theorem importsAsWritten (hb : m.resource config uri = .ok b) {exported : String}
    (hns : e.ns = Names.package)
    (hname : e.attributes.get? Names.package = some (.str exported))
    (hversion : e.attributes.get? Names.version = some (.version v))
    (hmandatory : ∀ name ∈ e.mandatory, name = Names.package) :
    m.ImportsAsWritten b e exported v := by
  obtain ⟨_, _, hwires⟩ := resource_eq_ok hb
  intro dynamic c hc honly package hpackage hplain
  obtain ⟨rs, hrs, himports⟩ := hwires.imports_eq dynamic
  obtain ⟨r, hr, himported⟩ := exists_of_readImports_eq_ok himports hc hpackage
  exact ⟨r, hrs hr, himported,
    accepts_importedPackage_iff himported honly hplain hns hname hversion hmandatory⟩

/-- A bundle meets the requirements of a resource for bundles as its manifest writes them. -/
theorem requiresAsWritten (hb : m.resource config uri = .ok b) {name : String}
    (hns : e.ns = Names.bundle)
    (hname : e.attributes.get? Names.bundle = some (.str name))
    (hversion : e.attributes.get? Names.bundleVersion = some (.version v))
    (hmandatory : ∀ name, name ∉ e.mandatory) : m.RequiresAsWritten b e name v := by
  obtain ⟨_, _, hwires⟩ := resource_eq_ok hb
  intro c hc honly
  obtain ⟨rs, hrs, hread⟩ := hwires.required_eq
  obtain ⟨range, hrange, hbundles⟩ := exists_of_readRequiredBundles_eq_ok hread hc
  refine ⟨range, hrange, fun bundle hbundle hplain => ?_⟩
  obtain ⟨r, hr, hrequired⟩ := hbundles bundle hbundle
  exact ⟨r, hrs hr, hrequired,
    accepts_requiredBundle_iff hrange hrequired honly hplain hns hname hversion hmandatory⟩

/-- The packages of a resource are those that its manifest exports. -/
theorem exists_export_of_mem_capabilities (hb : m.resource config uri = .ok b)
    (he : e ∈ b.capabilities) (hns : e.ns = Names.package) :
    ∃ c, HasClause (m.header Names.exportPackageHeader) c ∧
      ∃ package ∈ c.paths, exportedPackage b.name b.version c package = .ok e := by
  obtain ⟨bundle, exports, hwires⟩ := resource_eq_ok hb
  have hwiring : isWiring e = true := by
    rw [isWiring, hns]
    rfl
  rcases hwires.of_mem_capabilities he hwiring with ⟨hexport, -⟩ | ⟨-, hother⟩ | hother
  · exact (readExports_eq_ok hwires.exports_eq).2 e hexport
  all_goals exact absurd (hns.symm.trans hother) (by decide)

/-- A resource that is no fragment has one bundle, with its own name and version. -/
theorem exists_bundle (hb : m.resource config uri = .ok b)
    (hbundle : m.header? Names.fragmentHostHeader = none) :
    ∃ e ∈ b.capabilities, (∀ e' ∈ b.capabilities, e'.ns = Names.bundle → e' = e) ∧
      e.ns = Names.bundle ∧ e.attributes.get? Names.bundle = some (.str b.name) ∧
        e.attributes.get? Names.bundleVersion = some (.version b.version) := by
  obtain ⟨bundle, exports, hwires⟩ := resource_eq_ok hb
  obtain ⟨text, hread⟩ := hwires.bundle_eq
  refine ⟨bundle, List.mem_cons_of_mem _ (hwires.bundle_mem hbundle), fun e he hns => ?_,
    readSymbolicName_eq_ok hread⟩
  -- The other capabilities of wiring are packages and hosts.
  have hwiring : isWiring e = true := by
    rw [isWiring, hns]
    rfl
  rcases hwires.of_mem_capabilities he hwiring with ⟨-, hother⟩ | ⟨heq, -⟩ | hother
  · exact absurd (hns.symm.trans hother) (by decide)
  · exact heq
  · exact absurd (hns.symm.trans hother) (by decide)

/-- Manifests are wired as they are written. The packages of a resource are the exported ones of its
manifest, each with the version of its clause, and the imports of every manifest accept them by name
and version, unless they have mandatory attributes besides the name. Likewise a resource that is no
fragment has one bundle to be required, and every manifest requires it by name and version. -/
theorem resource_accepts_iff {m' : Manifest} {config' : Config} {uri' : Option String}
    {b' : Resource} (hb : m.resource config uri = .ok b)
    (hb' : m'.resource config' uri' = .ok b') :
    (∀ e ∈ b.capabilities, e.ns = Names.package →
      ∃ c, HasClause (m.header Names.exportPackageHeader) c ∧
        ∃ package ∈ c.paths, exportedPackage b.name b.version c package = .ok e) ∧
    (∀ c, HasClause (m.header Names.exportPackageHeader) c → ∀ exported ∈ c.paths,
      ∃ e ∈ b.capabilities, ∃ v, exportedPackage b.name b.version c exported = .ok e ∧
        c.versionText?.elim (some .zero) Version.parse? = some v ∧
        e.attributes.get? Names.version = some (.version v) ∧
        ((∀ name ∈ e.mandatory, name = Names.package) → m'.ImportsAsWritten b' e exported v)) ∧
    (m.header? Names.fragmentHostHeader = none → ∃ e ∈ b.capabilities, e.ns = Names.bundle ∧
      (∀ e' ∈ b.capabilities, e'.ns = Names.bundle → e' = e) ∧
      ((∀ name, name ∉ e.mandatory) → m'.RequiresAsWritten b' e b.name b.version)) := by
  refine ⟨fun e he hns => exists_export_of_mem_capabilities hb he hns,
    fun c hc exported hexported => ?_, fun hbundle => ?_⟩
  · obtain ⟨_, _, hwires⟩ := resource_eq_ok hb
    obtain ⟨e, he, hexport⟩ := (readExports_eq_ok hwires.exports_eq).1 c hc exported hexported
    obtain ⟨hns, hname, v, hgiven, hversion⟩ := exportedPackage_eq_ok hexport
    exact ⟨e, List.mem_cons_of_mem _ (hwires.exports_subset he), v, hexport, hgiven, hversion,
      importsAsWritten hb' hns hname hversion⟩
  · obtain ⟨e, he, hunique, hns, hname, hversion⟩ := exists_bundle hb hbundle
    exact ⟨e, he, hns, hunique, requiresAsWritten hb' hns hname hversion⟩

/-- A bundle that exports a package. -/
def exporter : Manifest where
  headers := .ofList [(Names.manifestVersionHeader, "2"), (Names.symbolicNameHeader, "acme"),
    (Names.versionHeader, "3"), (Names.exportPackageHeader, "acme.core;version=1.5")]

/-- A bundle that imports the package and requires the bundle. -/
def importer : Manifest where
  headers := .ofList [(Names.manifestVersionHeader, "2"), (Names.symbolicNameHeader, "user"),
    (Names.importPackageHeader, "acme.core;version=\"[1,2)\""),
    (Names.requireBundleHeader, "acme;bundle-version=3")]

/-- The import accepts the exported package, and the requirement of the bundle the bundle. -/
theorem exists_accepts_importer_exporter : ∃ b b',
    exporter.resource {} none = .ok b ∧ importer.resource {} none = .ok b' ∧
      (∃ e ∈ b.capabilities, e.attributes.get? Names.version = some (.version (.ofNumbers 1 5 0)) ∧
        ∃ r ∈ b'.requirements, r.accepts e = true) ∧
      ∃ e ∈ b.capabilities, e.ns = Names.bundle ∧ ∃ r ∈ b'.requirements, r.accepts e = true := by
  obtain ⟨b, hb, hfacts⟩ := exists_of_any_toOption (x := exporter.resource {} none) (fun b =>
    b.name == "acme" && b.version == .ofNumbers 3 0 0 &&
      b.capabilities.all fun e => e.mandatory.isEmpty) (by decide +kernel)
  obtain ⟨b', hb', -⟩ := exists_of_any_toOption (x := importer.resource {} none) (fun _ => true)
    (by decide +kernel)
  -- Neither the package nor the bundle has mandatory attributes.
  simp only [Bool.and_eq_true, beq_iff_eq, List.all_eq_true] at hfacts
  obtain ⟨⟨hname, hversion⟩, hmandatory⟩ := hfacts
  have hnone (e : Capability) (he : e ∈ b.capabilities) (name : String) : name ∉ e.mandatory := by
    rw [Std.ExtTreeSet.isEmpty_iff.mp (hmandatory e he)]
    exact Std.ExtTreeSet.not_mem_empty
  -- The clauses of the export, of the import and of the requirement fit together.
  obtain ⟨c, hc, hcore⟩ := exists_hasClause (exporter.header Names.exportPackageHeader) (fun c =>
    c.paths.contains "acme.core" && c.versionText? == some "1.5") (by decide +kernel)
  obtain ⟨i, hi, himport⟩ := exists_hasClause (importer.header (importHeader false)) (fun c =>
    c.hasOnly [Names.version, Names.specificationVersion] && c.paths.contains "acme.core" &&
      inRange c.versionText? (.ofNumbers 1 5 0)) (by decide +kernel)
  obtain ⟨d, hd, hrequire⟩ := exists_hasClause (importer.header Names.requireBundleHeader) (fun c =>
    c.hasOnly [Names.bundleVersion] && c.paths.contains "acme" &&
      inRange (c.attributes.get? Names.bundleVersion) (.ofNumbers 3 0 0)) (by decide +kernel)
  simp only [Bool.and_eq_true, beq_iff_eq, List.contains_iff_mem] at hcore himport hrequire
  obtain ⟨-, hexports, hbundle⟩ := resource_accepts_iff hb hb'
  refine ⟨b, b', hb, hb', ?_, ?_⟩
  · obtain ⟨e, he, v, -, hgiven, hv, himports⟩ := hexports c hc "acme.core" hcore.1
    obtain rfl : Version.ofNumbers 1 5 0 = v := by
      have hparse : Version.parse? "1.5" = some (.ofNumbers 1 5 0) := by decide +kernel
      rw [hcore.2, Option.elim_some, hparse] at hgiven
      exact Option.some.inj hgiven
    obtain ⟨r, hr, -, hiff⟩ := himports (fun name h => absurd h (hnone e he name)) false i hi
      himport.1.1 "acme.core" himport.1.2 (by decide)
    exact ⟨e, he, hv, r, hr, hiff.mpr ⟨rfl, himport.2⟩⟩
  · obtain ⟨e, he, hns, -, hrequires⟩ := hbundle (by decide +kernel)
    obtain ⟨range, -, hpaths⟩ := hrequires (hnone e he) d hd hrequire.1.1
    obtain ⟨r, hr, -, hiff⟩ := hpaths "acme" hrequire.1.2 (by decide)
    exact ⟨e, he, hns, r, hr, hiff.mpr ⟨hname.symm, hversion ▸ hrequire.2⟩⟩

end Manifest

end BundleWiring
