import BundleWiring.Proofs.Manifest.Host

/-!
# What a Resource Holds

A resource holds what the headers of its manifest say, and nothing else. Its capabilities and its
requirements stand in a fixed order of headers, and within a header in the order of its clauses and
their paths. This module proves:

- `eq_of_readEnvironments`: all execution environments are one requirement, if there are any;
- `bundles_of_readFrom`: what can be required or attached to by the name of a bundle;
- `Contents.OfManifest.mem_packages`: packages come from the header of exports only;
- `resource_contents`: a resource holds what its manifest says, in order.
-/

namespace BundleWiring.Manifest

open Text

/-! ### Fragments, hosts and environments -/

section Resources

variable {m : Manifest} {config : Config} {uri : Option String} {b : Resource} {s : Contents}

/-- A manifest describes a fragment if it names a host. -/
def IsFragment (m : Manifest) : Prop :=
  ∃ value, m.headers.get? Names.fragmentHostHeader = some value ∧ trim value.toList ≠ []

/-- A manifest describes a fragment exactly if it has the header for a host. -/
theorem isFragment_iff : m.IsFragment ↔ (m.header? Names.fragmentHostHeader).isSome = true := by
  unfold IsFragment header?
  cases m.headers.get? Names.fragmentHostHeader with
  | none => simp
  | some value => simp [trimText]

/-- The requirement for one of several execution environments. -/
structure IsEnvironment (r : Requirement) : Prop where
  /-- The namespace is the one of environments. -/
  ns_eq : r.ns = Names.environment
  /-- The filter says it all. -/
  attributes_eq : r.attributes = .empty
  /-- The filter is recorded. -/
  entries_eq : r.directives.entries = [(Names.filter, r.filter.text)]

/-- All environments that a header lists are one requirement. -/
theorem eq_of_readEnvironments {text : String} {rs : List Requirement}
    (h : readEnvironments text = .ok rs) :
    if environments text = [] then rs = [] else ∃ r, rs = [r] ∧ IsEnvironment r := by
  obtain ⟨fs, hfs, hrs⟩ := readEnvironments_eq_ok h
  split
  next hnil =>
    obtain rfl := List.forall₂_nil_left_iff.mp (hnil ▸ hfs)
    exact List.forall₂_nil_left_iff.mp hrs
  -- Each environment gives one condition, so there are some if an environment is listed.
  next hne =>
    have hfs : fs ≠ [] := fun hnil => hne (List.forall₂_nil_right_iff.mp (hnil ▸ hfs))
    obtain ⟨f, hf⟩ := Option.ne_none_iff_exists'.mp (mt disjunction?_eq_none_iff.mp hfs)
    rw [hf] at hrs
    obtain ⟨r, rs, hr, hnil, rfl⟩ := List.forall₂_cons_left_iff.mp hrs
    obtain rfl := List.forall₂_nil_left_iff.mp hnil
    exact ⟨r, rfl, hr.ns_eq, hr.attributes_eq, by rw [hr.directives_eq, hr.filter_eq]; rfl⟩

/-- A fragment requires a host, and no other bundle does. -/
theorem hosts_isEmpty_iff (hs : s.ReadFrom m uri b) : s.hosts.isEmpty = true ↔ ¬ m.IsFragment := by
  have hlength := hs.hosts_eq.length_eq
  rw [isFragment_iff, List.isEmpty_iff, ← List.length_eq_zero_iff, ← hlength]
  cases m.header? Names.fragmentHostHeader <;> simp

/-! ### Resources -/

/-- The capability that states the name, the kind and the version of a resource. -/
structure IsIdentity (b : Resource) (e : Capability) : Prop where
  /-- The namespace is the one of identities. -/
  ns_eq : e.ns = Names.identity
  /-- There are no directives. -/
  directives_eq : e.directives = .empty
  /-- The name, the kind and the version are there, and nothing else. -/
  entries_eq : e.attributes.entries = [(Names.identity, .str b.name), (Names.type, .str b.kind),
    (Names.version, .version b.version)]

/-- The identity that a resource is given is one. -/
theorem isIdentity_identity (b : Resource) :
    IsIdentity b (Resource.identity b.name b.kind b.version) :=
  ⟨rfl, rfl, rfl⟩

/-- The contents of a resource are what a manifest says. -/
structure Contents.OfManifest (s : Contents) (m : Manifest) (uri : Option String) (b : Resource) :
    Prop where
  /-- The version is `0.0.0` unless a header gives one. -/
  version_eq : (m.header? Names.versionHeader).elim (some .zero) Version.parse? = some b.version
  /-- The header of the symbolic name is one clause with the name as its only path. -/
  bundle : ∃ text c, m.header? Names.symbolicNameHeader = some text ∧ Header.read text = .ok [c] ∧
    c.paths = [b.name] ∧ IsBundle b.version c b.name s.bundle
  /-- The kind says whether a host is named. -/
  kind : m.IsFragment ∧ b.kind = Names.fragmentKind ∨ ¬ m.IsFragment ∧ b.kind = Names.bundleKind
  /-- The capabilities, in order; the first one states the identity. -/
  capabilities : ∃ identity, IsIdentity b identity ∧ b.capabilities =
    identity :: (s.location ++ s.bundles ++ s.packages ++ s.generics ++ s.services)
  /-- The requirements, in order. -/
  requirements_eq : b.requirements = s.hosts ++ s.imports ++ s.required ++ s.genericRequirements ++
    s.dynamicImports ++ s.environments ++ s.importedServices
  /-- The location of the content is there if it is known. -/
  location : List.Forall₂ IsLocation uri.toList s.location
  /-- Nothing requires a fragment or attaches to it. -/
  bundles_of_isFragment : m.IsFragment → s.bundles = []
  /-- A bundle is followed by its host, unless it refuses fragments. -/
  bundles_of_not_isFragment : ¬ m.IsFragment →
    if s.bundle.directives.get? Names.fragmentAttachment = some Names.never then
      s.bundles = [s.bundle]
    else ∃ host, StandsFor host s.bundle b.name ∧ s.bundles = [s.bundle, host]
  /-- The packages are exported by the resource. -/
  packages : OnePerPath (IsExport b.name b.version) (m.header Names.exportPackageHeader) s.packages
  /-- Other capabilities have a generic header. -/
  generics : OnePerPath IsGeneric (m.header Names.provideCapabilityHeader) s.generics
  /-- Exported services have a header of their own. -/
  services : OnePerPath IsService (m.header Names.exportServiceHeader) s.services
  /-- A fragment requires its host, which is the only path of its header. -/
  hosts : List.Forall₂ (fun text r => ∃ c host, Header.read text = .ok [c] ∧ c.paths = [host] ∧
    RequiresBundle Names.host c host r) (m.header? Names.fragmentHostHeader).toList s.hosts
  /-- Packages are imported at once. -/
  imports : OnePerPath (ImportsPackage false) (m.header Names.importPackageHeader) s.imports
  /-- Bundles are required. -/
  required : OnePerPath (RequiresBundle Names.bundle) (m.header Names.requireBundleHeader)
    s.required
  /-- Other requirements have a generic header. -/
  genericRequirements : OnePerPath IsGenericRequirement (m.header Names.requireCapabilityHeader)
    s.genericRequirements
  /-- Packages are imported when they are used. -/
  dynamicImports : OnePerPath (ImportsPackage true) (m.header Names.dynamicImportHeader)
    s.dynamicImports
  /-- All environments are one requirement. -/
  environments :
    if Manifest.environments (m.header Names.environmentHeader) = [] then s.environments = []
    else ∃ r, s.environments = [r] ∧ IsEnvironment r
  /-- Imported services have a header of their own. -/
  importedServices : OnePerPath ImportsService (m.header Names.importServiceHeader)
    s.importedServices

/-- The kind of a resource says whether its manifest describes a fragment. -/
theorem kind_of_readFrom (hs : s.ReadFrom m uri b) :
    m.IsFragment ∧ b.kind = Names.fragmentKind ∨ ¬ m.IsFragment ∧ b.kind = Names.bundleKind := by
  have hkind := hs.kind_eq
  split at hkind
  next hempty => exact .inr ⟨(hosts_isEmpty_iff hs).mp hempty, hkind⟩
  next hnonempty =>
    exact .inl ⟨not_not.mp fun hnot => hnonempty ((hosts_isEmpty_iff hs).mpr hnot), hkind⟩

/-- A bundle that is no fragment is followed by its host, unless it refuses fragments. -/
theorem bundles_of_readFrom (hs : s.ReadFrom m uri b) (hfragment : ¬ m.IsFragment) :
    if s.bundle.directives.get? Names.fragmentAttachment = some Names.never then
      s.bundles = [s.bundle]
    else ∃ host, StandsFor host s.bundle b.name ∧ s.bundles = [s.bundle, host] := by
  have hbundles := hs.bundles_eq
  rw [(hosts_isEmpty_iff hs).mpr hfragment, bundleCapabilities, if_neg (by decide)] at hbundles
  obtain ⟨text, -, hread⟩ := hs.bundle_eq
  split at hbundles
  next hattach =>
    obtain ⟨host, hhost, hpair⟩ := map_eq_ok_iff.mp hbundles
    rw [if_neg (bne_iff_ne.mp hattach)]
    exact ⟨host, standsFor_of_hostCapability hread hhost, hpair.symm⟩
  -- A bundle that refuses fragments stands alone.
  next hattach =>
    rw [if_pos (by simpa [isAttachable] using hattach)]
    exact (Except.ok.inj hbundles).symm

/-- The sections that are read for a resource are those of its manifest. -/
theorem ofManifest_of_readFrom (hs : s.ReadFrom m uri b) : s.OfManifest m uri b := by
  obtain ⟨text, htext, hread⟩ := hs.bundle_eq
  obtain ⟨c, hc, hpaths, hbundle⟩ := isBundle_of_readSymbolicName hread
  refine {
    version_eq := (elim_read_eq_ok_iff fun _ => elim_eq_ok_iff).mp hs.version_eq
    bundle := ⟨text, c, htext, hc, hpaths, hbundle⟩
    kind := kind_of_readFrom hs
    capabilities := ⟨_, isIdentity_identity b, congrArg (_ :: ·) hs.provided_eq⟩
    requirements_eq := hs.requirements_eq
    location := hs.location_eq.imp fun _ _ => isLocation_of_locationCapability
    bundles_of_isFragment := fun hfragment => ?_
    bundles_of_not_isFragment := bundles_of_readFrom hs
    packages := onePerPath_readExports hs.packages_eq
    generics := onePerPath_readCapabilities hs.generics_eq
    services := onePerPath_readExportedServices hs.services_eq
    hosts := hs.hosts_eq.imp fun _ _ => requiresBundle_of_readFragmentHost
    imports := onePerPath_readImports hs.imports_eq
    required := onePerPath_readRequiredBundles hs.required_eq
    genericRequirements := onePerPath_readRequirements hs.genericRequirements_eq
    dynamicImports := onePerPath_readImports hs.dynamicImports_eq
    environments := eq_of_readEnvironments hs.environments_eq
    importedServices := onePerPath_readImportedServices hs.importedServices_eq }
  -- A fragment has a host, and hence gives nothing by its own name.
  have hbundles := hs.bundles_eq
  have hnonempty : s.hosts.isEmpty = false := by
    rw [← Bool.not_eq_true, hosts_isEmpty_iff hs]
    exact not_not.mpr hfragment
  rw [hnonempty] at hbundles
  exact (Except.ok.inj hbundles).symm

/-- A package has its own name and the version of its clause, and the name and the version of the
resource that exports it, whatever else the clause says. -/
structure IsPackageOf (b : Resource) (c : HeaderClause) (package : String) (e : Capability) :
    Prop where
  /-- The package has its name. -/
  get?_package : e.attributes.get? Names.package = some (.str package)
  /-- The package has the version of the clause. -/
  get?_version : ∃ v, c.versionText?.elim (some .zero) Version.parse? = some v ∧
    e.attributes.get? Names.version = some (.version v)
  /-- The package names the bundle that exports it. -/
  get?_bundleSymbolicName : e.attributes.get? Names.bundleSymbolicName = some (.str b.name)
  /-- The package has the version of this bundle, too. -/
  get?_bundleVersion : e.attributes.get? Names.bundleVersion = some (.version b.version)

/-- An exported package says where it comes from. -/
theorem IsExport.isPackageOf {c : HeaderClause} {package : String} {e : Capability}
    (h : IsExport b.name b.version c package e) : IsPackageOf b c package e := by
  obtain ⟨v, others, hv, -, hentries⟩ := h.entries_eq
  have hget {name : String} {value : AttrValue} (hmem : (name, value) ∈
      [(Names.package, .str package), (Names.version, .version v)] ++ others ++
        [(Names.bundleSymbolicName, .str b.name), (Names.bundleVersion, .version b.version)]) :
      e.attributes.get? name = some value :=
    e.attributes.mem_entries_iff.mp (hentries ▸ hmem)
  exact ⟨hget (by simp), ⟨v, hv, hget (by simp)⟩, hget (by simp), hget (by simp)⟩

/-- The capabilities of a bundle as a whole are for its dependents and its fragments. -/
theorem Contents.OfManifest.ns_of_mem_bundles (hs : s.OfManifest m uri b) {e : Capability}
    (he : e ∈ s.bundles) : e.ns = Names.bundle ∨ e.ns = Names.host := by
  obtain ⟨text, c, -, -, -, hbundle⟩ := hs.bundle
  by_cases hfragment : m.IsFragment
  · rw [hs.bundles_of_isFragment hfragment] at he
    cases he
  have hbundles := hs.bundles_of_not_isFragment hfragment
  -- A bundle that allows fragments has two such capabilities, any other has one.
  split at hbundles
  · rw [hbundles, List.mem_singleton] at he
    exact .inl (he ▸ hbundle.ns_eq)
  · obtain ⟨host, hhost, hpair⟩ := hbundles
    rw [hpair] at he
    rcases List.mem_pair.mp he with rfl | rfl
    · exact .inl hbundle.ns_eq
    · exact .inr hhost.ns_eq

/-- Only the header of exported packages gives packages. -/
theorem Contents.OfManifest.mem_packages (hs : s.OfManifest m uri b) {e : Capability}
    (he : e ∈ b.capabilities) (hns : e.ns = Names.package) : e ∈ s.packages := by
  have hother {ns : String} (hne : ns ≠ Names.package) (h : e.ns = ns) : e ∈ s.packages :=
    absurd (h.symm.trans hns) hne
  obtain ⟨identity, hidentity, hcapabilities⟩ := hs.capabilities
  simp only [hcapabilities, List.mem_cons, List.mem_append] at he
  rcases he with rfl | (((he | he) | he) | he) | he
  · exact hother (by decide) hidentity.ns_eq
  · obtain ⟨uri, -, hlocation⟩ := exists_of_mem_of_forall₂ hs.location he
    exact hother (by decide) hlocation.ns_eq
  · exact (hs.ns_of_mem_bundles he).elim (hother (by decide)) (hother (by decide))
  · exact he
  -- The namespace of packages is one of wiring, which the generic header cannot give.
  · obtain ⟨c, -, ns, -, hgeneric⟩ := hs.generics.exists_of_mem he
    have hwiring : isWiring e = true := by
      rw [isWiring, hns]
      rfl
    exact absurd (hgeneric.isWiring_eq.symm.trans hwiring) (by decide)
  · obtain ⟨c, -, service, -, hservice⟩ := hs.services.exists_of_mem he
    exact hother (by decide) hservice.ns_eq

/-- A resource holds what its manifest says, in order, and each package that it exports says by whom
it is exported. -/
theorem resource_contents (h : m.resource config uri = .ok b) :
    (∃ s : Contents, s.OfManifest m uri b) ∧
      ∀ e ∈ b.capabilities, e.ns = Names.package →
        ∃ c, HasClause (m.header Names.exportPackageHeader) c ∧
          ∃ package ∈ c.paths, IsPackageOf b c package e := by
  obtain ⟨s, hs⟩ := exists_readFrom_of_resource h
  have hcontents := ofManifest_of_readFrom hs
  refine ⟨⟨s, hcontents⟩, fun e he hns => ?_⟩
  obtain ⟨c, hc, package, hpackage, hexport⟩ :=
    hcontents.packages.exists_of_mem (hcontents.mem_packages he hns)
  exact ⟨c, hc, package, hpackage, hexport.isPackageOf⟩

/-- A bundle that says something in each header. -/
def talkative : Manifest where
  headers := .ofList [(Names.manifestVersionHeader, "2"), (Names.symbolicNameHeader, "acme;x=1"),
    (Names.versionHeader, "1.2"),
    (Names.exportPackageHeader, "a;b;version=3,c;osgi.wiring.package=d"),
    (Names.provideCapabilityHeader, "x;y;n:Long=1"), (Names.exportServiceHeader, "Run"),
    (Names.importPackageHeader, "p;version=2,q"), (Names.requireBundleHeader, "base"),
    (Names.requireCapabilityHeader, "z;filter:=\"(n>=1)\""),
    (Names.dynamicImportHeader, "d.*"), (Names.environmentHeader, "J2SE-1.4"),
    (Names.importServiceHeader, "Log")]

/-- The capabilities and the requirements of the bundle, in order; the first capability states the
name, the kind and the version of the bundle, and another one is a package that names the bundle. -/
theorem exists_contents_talkative : ∃ b, talkative.resource {} (some "file:acme") = .ok b ∧
    b.capabilities.map (·.ns) = [Names.identity, Names.uri, Names.bundle, Names.host, Names.package,
      Names.package, Names.package, "x", "y", Names.service] ∧
    b.requirements.map (·.ns) = [Names.package, Names.package, Names.bundle, "z",
      Names.package, Names.environment, Names.service] ∧
    (∃ s : Contents, s.OfManifest talkative (some "file:acme") b) ∧
    (∃ identity, b.capabilities.head? = some identity ∧ identity.attributes.entries =
      [(Names.identity, .str "acme"), (Names.type, .str Names.bundleKind),
        (Names.version, .version (.ofNumbers 1 2 0))]) ∧
    ∃ e ∈ b.capabilities, e.attributes.get? Names.bundleSymbolicName = some (.str "acme") := by
  obtain ⟨b, hb, hfacts⟩ := exists_of_any_toOption
    (x := talkative.resource {} (some "file:acme")) (fun b => b.name == "acme" &&
      b.kind == Names.bundleKind && b.version == .ofNumbers 1 2 0 &&
      b.capabilities.map (·.ns) == [Names.identity, Names.uri, Names.bundle, Names.host,
        Names.package, Names.package, Names.package, "x", "y", Names.service] &&
      b.requirements.map (·.ns) == [Names.package, Names.package, Names.bundle, "z",
        Names.package, Names.environment, Names.service]) (by decide +kernel)
  simp only [Bool.and_eq_true, beq_iff_eq] at hfacts
  obtain ⟨⟨⟨⟨hname, hkind⟩, hversion⟩, hcapabilities⟩, hrequirements⟩ := hfacts
  obtain ⟨⟨s, hs⟩, hpackages⟩ := resource_contents hb
  obtain ⟨identity, hidentity, hfirst⟩ := hs.capabilities
  have hentries := hidentity.entries_eq
  rw [hname, hkind, hversion] at hentries
  refine ⟨b, hb, hcapabilities, hrequirements, ⟨s, hs⟩,
    ⟨identity, by rw [hfirst, List.head?_cons], hentries⟩, ?_⟩
  -- One of the capabilities is a package.
  have hmem : Names.package ∈ b.capabilities.map (·.ns) := by
    rw [hcapabilities]
    decide
  obtain ⟨e, he, hns⟩ := List.mem_map.mp hmem
  obtain ⟨c, -, package, -, hpackage⟩ := hpackages e he hns
  exact ⟨e, he, hname ▸ hpackage.get?_bundleSymbolicName⟩

end Resources

end BundleWiring.Manifest
