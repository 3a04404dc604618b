import BundleWiring.Proofs.Manifest.Readers

/-!
# Clause by Clause, Path by Path

Most headers of a manifest are read path by path, and give one capability or one requirement for
each path of each clause. Such a capability has the directives of its clause and, as attributes,
those of the clause with values of their declared types, after the ones that the header gives a
meaning to; these are not overridden. A requirement asks for the attributes that a capability would
have. This module proves:

- `onePerPath_of_mapM`: what a header gives that is read clause by clause, path by path;
- `entries_insertAll_of_typedAttributes`: fixed attributes come first, then those of the clause;
- `onePerPath_readExports`, `onePerPath_readCapabilities` and `onePerPath_readExportedServices`: the
  capabilities of headers;
- `onePerPath_readImports`, `onePerPath_readRequiredBundles`, `onePerPath_readRequirements` and
  `onePerPath_readImportedServices`: the requirements of headers.
-/

namespace BundleWiring.Manifest

open Text

/-! ### Headers, path by path -/

/-- The paths of some clauses, each with its clause, in order. -/
def pathsOf (cs : List HeaderClause) : List (HeaderClause × String) :=
  cs.flatMap fun c => c.paths.map (c, ·)

/-- A list has one member for each path of each clause of a header, in order. -/
def OnePerPath {α : Type} (R : HeaderClause → String → α → Prop) (text : String) (as : List α) :
    Prop :=
  ∃ cs, clausesOf text = .ok cs ∧ List.Forall₂ (fun p a => R p.1 p.2 a) (pathsOf cs) as

section OnePerPath

variable {α : Type} {R : HeaderClause → String → α → Prop} {text : String} {cs : List HeaderClause}

/-- What is related path by path in each clause is related path by path in all of them. -/
theorem forall₂_pathsOf {lists : List (List α)}
    (h : List.Forall₂ (fun c as => List.Forall₂ (R c) c.paths as) cs lists) :
    List.Forall₂ (fun p a => R p.1 p.2 a) (pathsOf cs) lists.flatten := by
  rw [pathsOf, List.flatMap_def]
  refine List.rel_flatten ?_
  rw [List.forall₂_map_left_iff]
  refine h.imp fun c as has => ?_
  rwa [List.forall₂_map_left_iff]

/-- A header that is read clause by clause, and each clause path by path, gives one result for each
path. -/
theorem onePerPath_of_mapM {f : HeaderClause → Except Error (List α)} {lists : List (List α)}
    (hcs : clausesOf text = .ok cs) (h : cs.mapM f = .ok lists)
    (hf : ∀ c as, f c = .ok as → List.Forall₂ (R c) c.paths as) :
    OnePerPath R text lists.flatten :=
  ⟨cs, hcs, forall₂_pathsOf ((mapM_eq_ok_iff.mp h).imp hf)⟩

/-- A member comes from a path of a clause of the header. -/
theorem OnePerPath.exists_of_mem {as : List α} {a : α} (h : OnePerPath R text as) (ha : a ∈ as) :
    ∃ c, HasClause text c ∧ ∃ path ∈ c.paths, R c path a := by
  obtain ⟨cs, hcs, hpaths⟩ := h
  obtain ⟨p, hp, hR⟩ := exists_of_mem_of_forall₂ hpaths ha
  obtain ⟨c, hc, hp⟩ := List.mem_flatMap.mp hp
  obtain ⟨path, hpath, rfl⟩ := List.mem_map.mp hp
  exact ⟨c, ⟨cs, hcs, hc⟩, path, hpath, hR⟩

/-- A reader that goes from path to path gives one member for each of them. -/
theorem onePerPath_of_forEachPath {f : HeaderClause → String → Except Error α} {as : List α}
    (hcs : clausesOf text = .ok cs) (h : forEachPath cs f = .ok as)
    (hf : ∀ c path a, f c path = .ok a → R c path a) : OnePerPath R text as := by
  obtain ⟨lists, hlists, rfl⟩ := map_eq_ok_iff.mp h
  exact onePerPath_of_mapM hcs hlists fun c as hc => (mapM_eq_ok_iff.mp hc).imp (hf c)

end OnePerPath

/-! ### Attributes -/

/-- Entries are the attributes of a clause, but for some names: in order, and with a value of the
declared type or, without a type, with the text. -/
def AreAttributes (entries : List (String × AttrValue)) (c : HeaderClause) (except : List String) :
    Prop :=
  List.Forall₂
    (fun raw e => e.1 = raw.1 ∧ match c.types.get? raw.1 with
      | none => e.2 = .str raw.2
      | some type => AttrValue.read raw.1 type raw.2 = .ok e.2)
    (c.attributes.entries.filter fun raw => !except.contains raw.1) entries

/-- Entries that are made one by one under the same names have these names. -/
theorem map_fst_eq_of_forall₂ {α β : Type} {entries : List (String × α)}
    {others : List (String × β)} (h : List.Forall₂ (fun e e' => e'.1 = e.1) entries others) :
    others.map Prod.fst = entries.map Prod.fst := by
  rw [← List.forall₂_eq_eq_eq, List.forall₂_map_left_iff, List.forall₂_map_right_iff]
  exact h.flip

section AreAttributes

variable {c : HeaderClause} {except : List String} {fixed others : List (String × AttrValue)}

/-- The attributes that are read for a clause are its own, with the values of their types. -/
theorem areAttributes_of_typedAttributes (h : typedAttributes c except = .ok others) :
    AreAttributes others c except := by
  refine (mapM_eq_ok_iff.mp h).imp fun raw e he => ?_
  obtain ⟨value, hvalue, rfl⟩ := map_eq_ok_iff.mp he
  refine ⟨rfl, ?_⟩
  cases htype : c.types.get? raw.1 with
  | none =>
    rw [htype] at hvalue
    exact (Except.ok.inj hvalue).symm
  | some type =>
    rw [htype] at hvalue
    exact hvalue

/-- The attributes that are read for a clause have different names. -/
theorem nodup_of_typedAttributes (h : typedAttributes c except = .ok others) :
    (others.map Prod.fst).Nodup := by
  -- Reading keeps the names, and those of a clause are distinct.
  rw [map_fst_eq_of_forall₂ ((areAttributes_of_typedAttributes h).imp fun _ _ => And.left)]
  exact c.attributes.nodup.sublist (List.filter_sublist.map _)

/-- Fixed attributes come first, then those of the clause with other names. -/
theorem entries_insertAll_of_typedAttributes (h : typedAttributes c except = .ok others)
    (hfixed : (fixed.map Prod.fst).Nodup) (hexcept : fixed.map Prod.fst ⊆ except) :
    ((Table.ofList fixed).insertAll others).entries = fixed ++ others := by
  have hnames : (Table.ofList fixed).names = fixed.map Prod.fst := by
    rw [Table.names, Table.entries_ofList hfixed]
  rw [Table.entries_insertAll, Table.entries_ofList hfixed]
  -- None of the other attributes is called like a fixed one, which would be replaced by it.
  rw [hnames, List.nodup_append]
  refine ⟨hfixed, nodup_of_typedAttributes h, ?_⟩
  rintro name hname _ hother rfl
  exact notMem_of_typedAttributes_eq_ok h (hexcept hname) hother

end AreAttributes

/-! ### Capabilities -/

section Capabilities

variable {text name path uri : String} {version : Version} {c : HeaderClause} {e : Capability}

/-- The capability that the content of a resource is found at a location. -/
structure IsLocation (uri : String) (e : Capability) : Prop where
  /-- The namespace is the one of locations. -/
  ns_eq : e.ns = Names.uri
  /-- There are no directives. -/
  directives_eq : e.directives = .empty
  /-- The location is the only attribute. -/
  entries_eq : e.attributes.entries = [(Names.uri, .str uri)]

/-- The bundle of a version that a clause of a symbolic name gives. -/
structure IsBundle (version : Version) (c : HeaderClause) (name : String) (e : Capability) :
    Prop where
  /-- The namespace is the one of bundles. -/
  ns_eq : e.ns = Names.bundle
  /-- The directives are those of the clause. -/
  directives_eq : e.directives = c.directives
  /-- The name and the version come first. -/
  entries_eq : ∃ others, AreAttributes others c [Names.bundle, Names.bundleVersion] ∧
    e.attributes.entries =
      [(Names.bundle, .str name), (Names.bundleVersion, .version version)] ++ others

/-- A package that a bundle of some name and version exports by a clause. -/
structure IsExport (bundle : String) (bundleVersion : Version) (c : HeaderClause) (package : String)
    (e : Capability) : Prop where
  /-- The namespace is the one of packages. -/
  ns_eq : e.ns = Names.package
  /-- The directives are those of the clause. -/
  directives_eq : e.directives = c.directives
  /-- The package and its version come first, the exporting bundle and its version last. -/
  entries_eq : ∃ v others, c.versionText?.elim (some .zero) Version.parse? = some v ∧
    AreAttributes others c [Names.package, Names.version, Names.specificationVersion] ∧
    e.attributes.entries = [(Names.package, .str package), (Names.version, .version v)] ++ others ++
      [(Names.bundleSymbolicName, .str bundle), (Names.bundleVersion, .version bundleVersion)]

/-- A capability of another namespace than those of wiring. -/
structure IsGeneric (c : HeaderClause) (ns : String) (e : Capability) : Prop where
  /-- The path is the namespace. -/
  ns_eq : e.ns = ns
  /-- Wiring has headers of its own. -/
  isWiring_eq : isWiring e = false
  /-- The directives are those of the clause. -/
  directives_eq : e.directives = c.directives
  /-- The attributes are those of the clause. -/
  entries_eq : AreAttributes e.attributes.entries c []

/-- A service that bundles offer when they run. -/
structure IsService (c : HeaderClause) (service : String) (e : Capability) : Prop where
  /-- The namespace is the one of services. -/
  ns_eq : e.ns = Names.service
  /-- The service takes effect when bundles run. -/
  directives_eq : e.directives = c.directives.insert Names.effective Names.active
  /-- The interface comes first. -/
  entries_eq : ∃ others, AreAttributes others c [Names.objectClass] ∧
    e.attributes.entries = (Names.objectClass, .str service) :: others

/-- The capability that is made for a location says where the resource is. -/
theorem isLocation_of_locationCapability (h : locationCapability uri = .ok e) :
    IsLocation uri e := by
  obtain ⟨hns, hdirectives, hattributes⟩ := Capability.ofParts_eq_ok h
  exact ⟨hns, hdirectives, hattributes ▸ rfl⟩

/-- A symbolic name gives a name and the capability of a bundle of this name. -/
theorem isBundle_of_readSymbolicName (h : readSymbolicName text version = .ok (name, e)) :
    ∃ c, Header.read text = .ok [c] ∧ c.paths = [name] ∧ IsBundle version c name e := by
  unfold readSymbolicName at h
  simp only [bind_eq_ok_iff] at h
  obtain ⟨cs, hcs, ⟨c, path⟩, hsingle, others, hothers, e', he, h⟩ := h
  obtain ⟨rfl, rfl⟩ := Prod.mk.inj (Except.ok.inj h)
  obtain ⟨rfl, hpaths⟩ := eq_of_singlePath hsingle
  obtain ⟨hns, hdirectives, hattributes⟩ := Capability.ofParts_eq_ok he
  refine ⟨c, hcs, hpaths, hns, hdirectives, others, areAttributes_of_typedAttributes hothers, ?_⟩
  rw [hattributes]
  exact entries_insertAll_of_typedAttributes hothers
    (show [Names.bundle, Names.bundleVersion].Nodup by decide) (by simp)

/-- A clause that does not name the exporting bundle does not override it. -/
theorem isExport_of_exportedPackage
    (h : exportedPackage name version c path = .ok e)
    (hname : Names.bundleSymbolicName ∉ c.attributes.names)
    (hversion : Names.bundleVersion ∉ c.attributes.names) : IsExport name version c path e := by
  unfold exportedPackage at h
  simp only [bind_eq_ok_iff] at h
  obtain ⟨_, -, versionText, hversionText, v, hv, others, hothers, he⟩ := h
  obtain ⟨hns, hdirectives, hattributes⟩ := Capability.ofParts_eq_ok he
  refine ⟨hns, hdirectives, v, others, elim_eq_some_of_packageVersion hversionText hv,
    areAttributes_of_typedAttributes hothers, ?_⟩
  have hentries : ((Table.ofList [(Names.package, AttrValue.str path),
      (Names.version, .version v)]).insertAll others).entries = _ :=
    entries_insertAll_of_typedAttributes hothers
      (show [Names.package, Names.version].Nodup by decide) (by simp)
  -- Nothing before it is called like the exporting bundle or its version.
  have hnew : ∀ exporter ∈ [Names.bundleSymbolicName, Names.bundleVersion],
      exporter ∉ [Names.package, Names.version] ∧ exporter ∉ others.map Prod.fst := by
    intro exporter hexporter
    refine ⟨?_, fun hmem => ?_⟩
    · revert exporter
      decide
    · have hclause := (of_mem_map_fst_typedAttributes hothers hmem).1
      rcases List.mem_pair.mp hexporter with rfl | rfl
      · exact hname hclause
      · exact hversion hclause
  rw [hattributes, Table.entries_insertAll, hentries]
  refine List.nodup_append.mpr
    ⟨Table.nodup _, show [Names.bundleSymbolicName, Names.bundleVersion].Nodup by decide, ?_⟩
  rintro other hmem _ hexporter rfl
  rw [Table.names, hentries, List.map_append, List.mem_append] at hmem
  exact hmem.elim (hnew other hexporter).1 (hnew other hexporter).2

/-- The header for exports gives a package for each of its paths. -/
theorem onePerPath_readExports {es : List Capability}
    (h : readExports text name version = .ok es) : OnePerPath (IsExport name version) text es := by
  obtain ⟨cs, hcs, h⟩ := bind_eq_ok_iff.mp h
  obtain ⟨lists, hlists, h⟩ := bind_eq_ok_iff.mp h
  obtain rfl := Except.ok.inj h
  refine onePerPath_of_mapM hcs hlists fun c es hc => ?_
  -- A clause that names the exporting bundle is refused, so no attribute gets in its way.
  split at hc
  · cases hc
  next hnames =>
    simp only [Bool.or_eq_true, Table.contains, List.contains_iff_mem, not_or] at hnames
    exact (mapM_eq_ok_iff.mp hc).imp fun path e he =>
      isExport_of_exportedPackage he hnames.1 hnames.2

/-- The header for capabilities gives a capability for each of its paths. -/
theorem onePerPath_readCapabilities {es : List Capability} (h : readCapabilities text = .ok es) :
    OnePerPath IsGeneric text es := by
  obtain ⟨cs, hcs, hpaths⟩ := bind_eq_ok_iff.mp h
  refine onePerPath_of_forEachPath hcs hpaths fun c ns e he => ?_
  simp only [bind_eq_ok_iff] at he
  obtain ⟨_, hcheck, others, hothers, he⟩ := he
  obtain ⟨hns, hdirectives, hattributes⟩ := Capability.ofParts_eq_ok he
  refine ⟨hns, ?_, hdirectives, ?_⟩
  · rw [isWiring, hns]
    exact isPrefixOf_of_checkNamespace hcheck
  · rw [hattributes, Table.entries_ofList (nodup_of_typedAttributes hothers)]
    exact areAttributes_of_typedAttributes hothers

/-- The header for exported services gives a service for each of its paths. -/
theorem onePerPath_readExportedServices {es : List Capability}
    (h : readExportedServices text = .ok es) : OnePerPath IsService text es := by
  obtain ⟨cs, hcs, hpaths⟩ := bind_eq_ok_iff.mp h
  refine onePerPath_of_forEachPath hcs hpaths fun c service e he => ?_
  obtain ⟨attributes, hattributes, he⟩ := bind_eq_ok_iff.mp he
  obtain ⟨others, hothers, hfixed⟩ := bind_eq_ok_iff.mp hattributes
  obtain rfl := Except.ok.inj hfixed
  obtain ⟨hns, hdirectives, hparts⟩ := Capability.ofParts_eq_ok he
  refine ⟨hns, hdirectives, others, areAttributes_of_typedAttributes hothers, ?_⟩
  rw [hparts]
  exact entries_insertAll_of_typedAttributes hothers (by simp) (by simp)

end Capabilities

/-! ### Requirements -/

section Requirements

variable {text path : String} {c : HeaderClause} {r : Requirement}

/-- A requirement asks for attributes, and its directive `filter` records how. -/
structure Asks (r : Requirement) (ns : String) (directives : Directives) (asked : Attributes) :
    Prop where
  /-- The namespace is the one of what is asked for. -/
  ns_eq : r.ns = ns
  /-- The record is added to the directives. -/
  directives_eq : r.directives = directives.insert Names.filter r.filter.text
  /-- The filter is the one for the attributes. -/
  filter_eq : r.filter = .ofAttributes asked

/-- A bundle that a clause requires, or asks for as a host, in the range of versions that it
gives. -/
structure RequiresBundle (ns : String) (c : HeaderClause) (bundle : String) (r : Requirement) :
    Prop where
  /-- The requirement asks for all its attributes, with the directives of the clause. -/
  asks : Asks r ns c.directives r.attributes
  /-- The name and the range come first. -/
  entries_eq : ∃ range others,
    (c.attributes.get? Names.bundleVersion).elim (some .any) VersionRange.parse? = some range ∧
    AreAttributes others c [ns, Names.bundleVersion] ∧
    r.attributes.entries = [(ns, .str bundle), (Names.bundleVersion, .range range)] ++ others

/-- An attribute of a clause as the attribute that an import asks for: the version of the exporting
bundle is a range. -/
def ImportsAs (given asked : String × AttrValue) : Prop :=
  asked.1 = given.1 ∧ match given.2 with
    | .str text =>
      if given.1 = Names.bundleVersion then
        ∃ range, VersionRange.parse? text = some range ∧ asked.2 = .range range
      else asked.2 = .str text
    | value => asked.2 = value

/-- A package that a clause imports, at once or when it is used. -/
structure ImportsPackage (dynamic : Bool) (c : HeaderClause) (package : String) (r : Requirement) :
    Prop where
  /-- The attributes are not kept. -/
  attributes_eq : r.attributes = .empty
  /-- The requirement asks for the package, for a version if the clause gives a range, and for the
  other attributes of the clause. A dynamic import says so. -/
  asks : ∃ versions given others asked,
    (match c.versionText? with
      | none => versions = []
      | some text => ∃ range, VersionRange.parse? text = some range ∧
        versions = [(Names.version, .range range)]) ∧
    AreAttributes given c [Names.package, Names.version, Names.specificationVersion] ∧
    List.Forall₂ ImportsAs given others ∧
    Table.entries asked = (Names.package, .str package) :: versions ++ others ∧
    Asks r Names.package
      (if dynamic then c.directives.insert Names.resolution Names.dynamic else c.directives) asked

/-- A requirement in another namespace than those of wiring. -/
structure IsGenericRequirement (c : HeaderClause) (ns : String) (r : Requirement) : Prop where
  /-- The path is the namespace. -/
  ns_eq : r.ns = ns
  /-- Wiring has headers of its own. -/
  isWiring_eq : Names.wiring.toList.isPrefixOf ns.toList = false
  /-- The directives are those of the clause. -/
  directives_eq : r.directives = c.directives
  /-- The attributes are those of the clause. -/
  entries_eq : AreAttributes r.attributes.entries c []
  /-- The filter is the one in the directive; without it every capability is taken. -/
  filter_eq : (c.directives.get? Names.filter).elim (.ok .all) Filter.parse = .ok r.filter

/-- A service that bundles use when they run. -/
structure ImportsService (c : HeaderClause) (service : String) (r : Requirement) : Prop where
  /-- The attributes are not kept. -/
  attributes_eq : r.attributes = .empty
  /-- The requirement asks for the interface and the attributes of the clause. -/
  asks : ∃ others asked, AreAttributes others c [Names.objectClass] ∧
    Table.entries asked = (Names.objectClass, .str service) :: others ∧
    Asks r Names.service (importedServiceDirectives c) asked

/-- A requirement that is made of attributes asks for them, and has them itself only if they are
kept. -/
theorem asks_of_synthesizedRequirement {ns : String} {directives : Directives} {asked : Attributes}
    {keep : Bool} (h : synthesizedRequirement ns directives asked keep = .ok r) :
    Asks r ns directives asked ∧ r.attributes = if keep then asked else .empty := by
  obtain ⟨hns, hdirectives, hattributes, hfilter⟩ := Requirement.withFilter_eq_ok h
  exact ⟨⟨hns, by rw [hdirectives, hfilter], hfilter⟩, hattributes⟩

/-- The requirement for a bundle asks for its name, for the versions of the clause and for the other
attributes. -/
theorem requiresBundle_of_requiredBundle {ns : String} {range : VersionRange}
    (hns : ns ≠ Names.bundleVersion) (hrange : bundleRange c = .ok range)
    (h : requiredBundle ns c range path = .ok r) : RequiresBundle ns c path r := by
  obtain ⟨others, hothers, h⟩ := bind_eq_ok_iff.mp h
  obtain ⟨hasks, hattributes⟩ := asks_of_synthesizedRequirement h
  rw [if_pos rfl] at hattributes
  refine ⟨hattributes ▸ hasks, range, others,
    (elim_read_eq_ok_iff fun _ => elim_eq_ok_iff).mp hrange,
    areAttributes_of_typedAttributes hothers, ?_⟩
  rw [hattributes]
  exact entries_insertAll_of_typedAttributes hothers
    (show [ns, Names.bundleVersion].Nodup by simp [hns]) (by simp)

/-- An attribute of an import is asked for as it is given, or as a range of bundle versions. -/
theorem importsAs_of_importAttribute {given asked : String × AttrValue}
    (h : importAttribute given.1 given.2 = .ok asked) : ImportsAs given asked := by
  obtain ⟨name, value⟩ := given
  -- Only a bundle version that is written as a text becomes a range.
  cases value with
  | str text =>
    rw [importAttribute] at h
    split at h
    next hname =>
      obtain ⟨range, hrange, rfl⟩ := map_eq_ok_iff.mp h
      refine ⟨rfl, ?_⟩
      show if name = Names.bundleVersion then _ else _
      rw [if_pos hname]
      exact ⟨range, elim_eq_ok_iff.mp hrange, rfl⟩
    next hname =>
      obtain rfl := Except.ok.inj h
      refine ⟨rfl, ?_⟩
      show if name = Names.bundleVersion then _ else _
      rw [if_neg hname]
  | long | double | version | range | list =>
    obtain rfl := Except.ok.inj h
    exact ⟨rfl, rfl⟩

/-- The requirement for a package asks for its name and for the attributes of the clause. -/
theorem importsPackage_of_importedPackage {dynamic : Bool}
    (h : importedPackage dynamic c path = .ok r) : ImportsPackage dynamic c path r := by
  unfold importedPackage at h
  simp only [bind_eq_ok_iff] at h
  obtain ⟨versionText, hversionText, versions, hversions, given, hgiven, others, hothers, h⟩ := h
  obtain ⟨hasks, hattributes⟩ := asks_of_synthesizedRequirement h
  have hversions := versions_of_packageVersion hversionText hversions
  have hothers : List.Forall₂ ImportsAs given others :=
    (mapM_eq_ok_iff.mp hothers).imp fun _ _ => importsAs_of_importAttribute
  refine ⟨hattributes, versions, given, others, _, hversions,
    areAttributes_of_typedAttributes hgiven, hothers, Table.entries_ofList ?_, hasks⟩
  -- The name and the version of the package are read apart from the other attributes.
  have hfixed : (Names.package :: versions.map Prod.fst).Nodup ∧
      Names.package :: versions.map Prod.fst ⊆
        [Names.package, Names.version, Names.specificationVersion] := by
    split at hversions
    · rw [hversions]
      decide
    · obtain ⟨range, -, rfl⟩ := hversions
      show [Names.package, Names.version].Nodup ∧ [Names.package, Names.version] ⊆ _
      decide
  rw [List.map_append, map_fst_eq_of_forall₂ (hothers.imp fun _ _ => And.left), List.nodup_append]
  refine ⟨hfixed.1, nodup_of_typedAttributes hgiven, ?_⟩
  rintro name hname _ hother rfl
  exact notMem_of_typedAttributes_eq_ok hgiven (hfixed.2 hname) hother

/-- A header for imports gives a requirement for each of its paths. -/
theorem onePerPath_readImports {dynamic : Bool} {rs : List Requirement}
    (h : readImports text dynamic = .ok rs) : OnePerPath (ImportsPackage dynamic) text rs := by
  obtain ⟨cs, hcs, h⟩ := bind_eq_ok_iff.mp h
  exact ⟨cs, hcs, (mapM_eq_ok_iff.mp (mapM_of_importPackages_eq_ok h)).imp
    fun _ _ => importsPackage_of_importedPackage⟩

/-- The header for required bundles gives a requirement for each of its paths. -/
theorem onePerPath_readRequiredBundles {rs : List Requirement}
    (h : readRequiredBundles text = .ok rs) : OnePerPath (RequiresBundle Names.bundle) text rs := by
  obtain ⟨cs, hcs, h⟩ := bind_eq_ok_iff.mp h
  obtain ⟨lists, hlists, h⟩ := bind_eq_ok_iff.mp h
  obtain rfl := Except.ok.inj h
  refine onePerPath_of_mapM hcs hlists fun c rs hc => ?_
  -- All paths of a clause have the range of the clause.
  obtain ⟨range, hrange, hpaths⟩ := bind_eq_ok_iff.mp hc
  exact (mapM_eq_ok_iff.mp hpaths).imp fun _ _ =>
    requiresBundle_of_requiredBundle (by decide) hrange

/-- The header for a host gives the requirement for the bundle that its one path names. -/
theorem requiresBundle_of_readFragmentHost (h : readFragmentHost text = .ok r) :
    ∃ c host, Header.read text = .ok [c] ∧ c.paths = [host] ∧
      RequiresBundle Names.host c host r := by
  unfold readFragmentHost at h
  simp only [bind_eq_ok_iff] at h
  obtain ⟨cs, hcs, ⟨c, host⟩, hsingle, range, hrange, h⟩ := h
  obtain ⟨rfl, hpaths⟩ := eq_of_singlePath hsingle
  exact ⟨c, host, hcs, hpaths, requiresBundle_of_requiredBundle (by decide) hrange h⟩

/-- The header for requirements gives a requirement for each of its paths. -/
theorem onePerPath_readRequirements {rs : List Requirement} (h : readRequirements text = .ok rs) :
    OnePerPath IsGenericRequirement text rs := by
  obtain ⟨cs, hcs, h⟩ := bind_eq_ok_iff.mp h
  obtain ⟨lists, hlists, h⟩ := bind_eq_ok_iff.mp h
  obtain rfl := Except.ok.inj h
  refine onePerPath_of_mapM hcs hlists fun c rs hc => ?_
  -- The filter is read once for a clause, whatever its paths are.
  obtain ⟨filter, hfilter, hpaths⟩ := bind_eq_ok_iff.mp hc
  refine (mapM_eq_ok_iff.mp hpaths).imp fun ns r hr => ?_
  simp only [bind_eq_ok_iff] at hr
  obtain ⟨_, hcheck, others, hothers, hr⟩ := hr
  obtain ⟨hns, hdirectives, hattributes, hrfilter⟩ := Requirement.withFilter_eq_ok hr
  refine ⟨hns, isPrefixOf_of_checkNamespace hcheck, hdirectives, ?_, ?_⟩
  · rw [hattributes, Table.entries_ofList (nodup_of_typedAttributes hothers)]
    exact areAttributes_of_typedAttributes hothers
  · rw [hrfilter]
    cases hrecorded : c.directives.get? Names.filter with
    | none =>
      rw [hrecorded] at hfilter
      exact congrArg Except.ok (Except.ok.inj hfilter)
    | some recorded =>
      rw [hrecorded] at hfilter
      exact mapError_eq_ok_iff.mp hfilter

/-- The header for imported services gives a requirement for each of its paths. -/
theorem onePerPath_readImportedServices {rs : List Requirement}
    (h : readImportedServices text = .ok rs) : OnePerPath ImportsService text rs := by
  obtain ⟨cs, hcs, hpaths⟩ := bind_eq_ok_iff.mp h
  refine onePerPath_of_forEachPath hcs hpaths fun c service r hr => ?_
  obtain ⟨attributes, hattributes, hr⟩ := bind_eq_ok_iff.mp hr
  obtain ⟨others, hothers, hfixed⟩ := bind_eq_ok_iff.mp hattributes
  obtain rfl := Except.ok.inj hfixed
  obtain ⟨hasks, hkept⟩ := asks_of_synthesizedRequirement hr
  exact ⟨hkept, others, _, areAttributes_of_typedAttributes hothers,
    entries_insertAll_of_typedAttributes hothers (by simp) (by simp), hasks⟩

end Requirements

end BundleWiring.Manifest
