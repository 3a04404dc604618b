import BundleWiring.Manifest.Build
import BundleWiring.Proofs.Readings
import BundleWiring.Proofs.Version.Text

/-!
# What the Readers of Headers Give

A header is read clause by clause and path by path, and the first fault ends the reading. So a
header that is read gives one capability or requirement for each path of each clause, and gives
nothing else. This module proves:

- `forEachPath_eq_ok`: what a list holds that is read path by path;
- `importPackages_eq_ok_iff`: which packages can be imported together;
- `readExports_eq_ok`, `exists_of_readImports_eq_ok` and `exists_of_readRequiredBundles_eq_ok`: the
  packages and the bundles of the clauses of a header;
- `readEnvironments_eq_ok`: the one requirement for all execution environments;
- `exists_readFrom_of_resource`: which header each part of a resource is read from;
- `resource_eq_ok`: where a resource has the packages and the bundles of its manifest.
-/

namespace BundleWiring

open Text

/-! ### Clauses, capabilities and requirements that are made -/

/-- A clause that is made has the parts that it was made from. -/
theorem Clause.ofParts_eq_ok {ns : String} {directives : Directives} {attributes : Attributes}
    {c : Clause} (h : Clause.ofParts ns directives attributes = .ok c) :
    c.ns = ns ∧ c.directives = directives ∧ c.attributes = attributes := by
  unfold Clause.ofParts at h
  split at h
  · cases h
  · split at h
    · cases h
    · obtain rfl := Except.ok.inj h
      exact ⟨rfl, rfl, rfl⟩

/-- The parts of a clause make the clause, because they keep the rules. -/
theorem Clause.ofParts_eq_ok_iff {ns : String} {directives : Directives} {attributes : Attributes}
    {c : Clause} : Clause.ofParts ns directives attributes = .ok c ↔
      c.ns = ns ∧ c.directives = directives ∧ c.attributes = attributes := by
  refine ⟨Clause.ofParts_eq_ok, ?_⟩
  rintro ⟨rfl, rfl, rfl⟩
  unfold Clause.ofParts
  rw [dif_neg c.ns_proper]
  split
  next name h =>
    have hname := c.disjoint name (List.mem_of_find?_eq_some h)
    simp [List.find?_some h] at hname
  next => rfl

/-- Nor does a capability lack a mandatory attribute. -/
theorem Capability.ofParts_eq_ok_iff {ns : String} {directives : Directives}
    {attributes : Attributes} {c : Capability} :
    Capability.ofParts ns directives attributes = .ok c ↔
      c.ns = ns ∧ c.directives = directives ∧ c.attributes = attributes := by
  rw [Capability.ofParts, bind_eq_ok_iff]
  constructor
  · rintro ⟨clause, hclause, hc⟩
    unfold Capability.ofClause at hc
    split at hc
    · cases hc
    · obtain rfl := Except.ok.inj hc
      exact Clause.ofParts_eq_ok_iff.mp hclause
  · rintro hparts
    refine ⟨c.clause, Clause.ofParts_eq_ok_iff.mpr hparts, ?_⟩
    unfold Capability.ofClause
    split
    -- The capability holds its mandatory attributes, so that none can be found missing.
    next name h =>
      have hlacks := List.find?_some h
      rw [c.mandatory_held name (List.mem_of_find?_eq_some h)] at hlacks
      cases hlacks
    next => rfl

/-- A capability has the parts that it is made of. -/
theorem Capability.ofParts_eq_ok {ns : String} {directives : Directives} {attributes : Attributes}
    {c : Capability} (h : Capability.ofParts ns directives attributes = .ok c) :
    c.ns = ns ∧ c.directives = directives ∧ c.attributes = attributes :=
  Capability.ofParts_eq_ok_iff.mp h

/-- A requirement that is made has the parts that it was made from. -/
theorem Requirement.withFilter_eq_ok {ns : String} {directives : Directives}
    {attributes : Attributes} {filter : Filter} {r : Requirement}
    (h : Requirement.withFilter ns directives attributes filter = .ok r) :
    r.ns = ns ∧ r.directives = directives ∧ r.attributes = attributes ∧ r.filter = filter := by
  obtain ⟨clause, hclause, rfl⟩ := map_eq_ok_iff.mp h
  obtain ⟨hns, hdirectives, hattributes⟩ := Clause.ofParts_eq_ok hclause
  exact ⟨hns, hdirectives, hattributes, rfl⟩

/-- The text of the version that a clause gives its packages, under either name. -/
def HeaderClause.versionText? (c : HeaderClause) : Option String :=
  (c.attributes.get? Names.version).or (c.attributes.get? Names.specificationVersion)

/-- Whether a clause has no attributes but those with some names. -/
def HeaderClause.hasOnly (c : HeaderClause) (names : List String) : Bool :=
  c.attributes.names.all names.contains

namespace Manifest

/-- Whether a header has a clause. -/
def HasClause (text : String) (c : HeaderClause) : Prop :=
  ∃ cs, clausesOf text = .ok cs ∧ c ∈ cs

/-- A clause that a header has is among those that are read. -/
theorem HasClause.mem {text : String} {c : HeaderClause} {cs : List HeaderClause}
    (hc : HasClause text c) (hcs : clausesOf text = .ok cs) : c ∈ cs := by
  obtain ⟨cs', hcs', hmem⟩ := hc
  obtain rfl : cs' = cs := Except.ok.inj (hcs'.symm.trans hcs)
  exact hmem

/-- A header that is read path by path gives something for each path, and nothing else. -/
theorem forEachPath_eq_ok {α : Type} {cs : List HeaderClause}
    {f : HeaderClause → String → Except Error α} {as : List α} (h : forEachPath cs f = .ok as) :
    (∀ c ∈ cs, ∀ path ∈ c.paths, ∃ a, f c path = .ok a) ∧
      ∀ a, a ∈ as ↔ ∃ c ∈ cs, ∃ path ∈ c.paths, f c path = .ok a := by
  obtain ⟨lists, hlists, rfl⟩ := map_eq_ok_iff.mp h
  obtain ⟨hok, hmem⟩ := mapM_eq_ok hlists
  constructor
  · intro c hc
    obtain ⟨as, has⟩ := hok c hc
    exact (mapM_eq_ok has).1
  · intro a
    rw [List.mem_flatten]
    constructor
    · rintro ⟨as, has, ha⟩
      obtain ⟨c, hc, hpaths⟩ := (hmem as).mp has
      exact ⟨c, hc, ((mapM_eq_ok hpaths).2 a).mp ha⟩
    · rintro ⟨c, hc, hpath⟩
      obtain ⟨as, has⟩ := hok c hc
      exact ⟨as, (hmem as).mpr ⟨c, hc, has⟩, ((mapM_eq_ok has).2 a).mpr hpath⟩

/-- A header that has to be one clause with one path is. -/
theorem eq_of_singlePath {fault : RuleFault} {cs : List HeaderClause} {c : HeaderClause}
    {path : String} (h : singlePath fault cs = .ok (c, path)) : cs = [c] ∧ c.paths = [path] := by
  unfold singlePath at h
  split at h
  · split at h
    next c' path' hpaths =>
      split at h
      · cases h
      · cases h
        exact ⟨rfl, hpaths⟩
    · cases h
  · cases h

/-! ### Clauses and their attributes -/

/-- The attributes that are read one by one are those of the clause, without the fixed ones. -/
theorem of_mem_map_fst_typedAttributes {c : HeaderClause} {except : List String}
    {others : List (String × AttrValue)} (h : typedAttributes c except = .ok others) {name : String}
    (hname : name ∈ others.map Prod.fst) : name ∈ c.attributes.names ∧ name ∉ except := by
  obtain ⟨⟨_, value⟩, hvalue, rfl⟩ := List.mem_map.mp hname
  obtain ⟨⟨name', raw⟩, he, hread⟩ := ((mapM_eq_ok h).2 _).mp hvalue
  obtain ⟨value', -, heq⟩ := map_eq_ok_iff.mp hread
  obtain rfl : name' = _ := congrArg Prod.fst heq
  obtain ⟨he, hkept⟩ := List.mem_filter.mp he
  exact ⟨List.mem_map_of_mem he, by simpa using hkept⟩

/-- Attributes with fixed values are not among those that are read one by one. -/
theorem notMem_of_typedAttributes_eq_ok {c : HeaderClause} {except : List String}
    {others : List (String × AttrValue)} (h : typedAttributes c except = .ok others) {name : String}
    (hname : name ∈ except) : name ∉ others.map Prod.fst :=
  fun hmem => (of_mem_map_fst_typedAttributes h hmem).2 hname

/-- Two fixed attributes keep their values when the other ones are added. -/
theorem get?_insertAll_typedAttributes {c : HeaderClause} {except : List String}
    {others : List (String × AttrValue)} (h : typedAttributes c except = .ok others)
    {first second : String} (hne : first ≠ second) (hfirst : first ∈ except)
    (hsecond : second ∈ except) (x y : AttrValue) :
    ((Table.ofList [(first, x), (second, y)]).insertAll others).get? first = some x ∧
      ((Table.ofList [(first, x), (second, y)]).insertAll others).get? second = some y := by
  rw [Table.get?_insertAll_of_notMem _ (notMem_of_typedAttributes_eq_ok h hfirst),
    Table.get?_insertAll_of_notMem _ (notMem_of_typedAttributes_eq_ok h hsecond)]
  simp [Table.ofList, Table.get?_insert, hne]

/-- A clause whose attributes are all fixed has no others. -/
theorem typedAttributes_eq_nil {c : HeaderClause} {names except : List String}
    (hc : c.hasOnly names = true) (hsub : names ⊆ except) : typedAttributes c except = .ok [] := by
  have hnone : c.attributes.entries.filter (fun e => !except.contains e.1) = [] := by
    refine List.filter_eq_nil_iff.mpr fun e he => ?_
    have hname := List.all_eq_true.mp hc e.1 (List.mem_map_of_mem he)
    simpa using hsub (List.contains_iff_mem.mp hname)
  rw [typedAttributes, hnone]
  rfl

/-- A requirement that is made of attributes looks for them. -/
theorem synthesizedRequirement_eq_ok {ns : String} {directives : Directives}
    {attributes : Attributes} {keep : Bool} {r : Requirement}
    (h : synthesizedRequirement ns directives attributes keep = .ok r) :
    r.ns = ns ∧ r.filter = .ofAttributes attributes := by
  obtain ⟨hns, -, -, hfilter⟩ := Requirement.withFilter_eq_ok h
  exact ⟨hns, hfilter⟩

/-! ### Packages and bundles -/

/-- A version that is given under both names has to be the same, but for blanks. -/
theorem packageVersion_eq_ok_iff {c : HeaderClause} {package : String} {version : Option String} :
    packageVersion c package = .ok version ↔
      (∀ v s, c.attributes.get? Names.version = some v →
        c.attributes.get? Names.specificationVersion = some s → trimText v = trimText s) ∧
      version = c.versionText?.map trimText := by
  unfold packageVersion HeaderClause.versionText?
  cases c.attributes.get? Names.version with
  | none => simp [eq_comm]
  | some v =>
    cases c.attributes.get? Names.specificationVersion with
    | none => simp [eq_comm]
    | some s =>
      by_cases hagree : trimText v = trimText s
      · simp [hagree, eq_comm]
      · simp [hagree]

/-- The version of a package is the one that its clause gives, or the lowest. -/
theorem elim_eq_some_of_packageVersion {c : HeaderClause} {package : String} {text : Option String}
    (h : packageVersion c package = .ok text) {v : Version}
    (hv : text.elim (.ok .zero) Version.read = .ok v) :
    c.versionText?.elim (some .zero) Version.parse? = some v := by
  rw [(packageVersion_eq_ok_iff.mp h).2] at hv
  cases hgiven : c.versionText? with
  | none =>
    rw [hgiven, Option.map_none, Option.elim_none] at hv
    rw [Option.elim_none, Except.ok.inj hv]
  | some given =>
    rw [hgiven, Option.map_some, Option.elim_some] at hv
    rw [Option.elim_some, ← Version.parse?_trimText]
    exact elim_eq_ok_iff.mp hv

/-- An import asks for a version if its clause gives a range. -/
theorem versions_of_packageVersion {c : HeaderClause} {package : String} {text : Option String}
    (h : packageVersion c package = .ok text) {versions : List (String × AttrValue)}
    (hversions : text.elim (.ok []) (fun text =>
      (fun range => [(Names.version, AttrValue.range range)]) <$> VersionRange.read text) =
        .ok versions) :
    match c.versionText? with
    | none => versions = []
    | some text => ∃ range, VersionRange.parse? text = some range ∧
        versions = [(Names.version, .range range)] := by
  rw [(packageVersion_eq_ok_iff.mp h).2] at hversions
  cases hgiven : c.versionText? with
  | none =>
    rw [hgiven, Option.map_none, Option.elim_none] at hversions
    exact (Except.ok.inj hversions).symm
  | some given =>
    rw [hgiven, Option.map_some, Option.elim_some] at hversions
    obtain ⟨range, hrange, rfl⟩ := map_eq_ok_iff.mp hversions
    refine ⟨range, ?_, rfl⟩
    rw [← VersionRange.parse?_trimText]
    exact elim_eq_ok_iff.mp hrange

/-- An exported package has its name and the version that its clause gives. -/
theorem exportedPackage_eq_ok {bundle : String} {bundleVersion : Version} {c : HeaderClause}
    {package : String} {e : Capability}
    (h : exportedPackage bundle bundleVersion c package = .ok e) :
    e.ns = Names.package ∧ e.attributes.get? Names.package = some (.str package) ∧
      ∃ v, c.versionText?.elim (some .zero) Version.parse? = some v ∧
        e.attributes.get? Names.version = some (.version v) := by
  unfold exportedPackage at h
  simp only [bind_eq_ok_iff] at h
  obtain ⟨_, -, text, htext, v, hv, others, hothers, he⟩ := h
  obtain ⟨hns, -, hattributes⟩ := Capability.ofParts_eq_ok he
  obtain ⟨hname, hversion⟩ := get?_insertAll_typedAttributes hothers
    (show Names.package ≠ Names.version by decide) (by simp) (by simp) (.str package) (.version v)
  -- The attributes of the exporting bundle come last and have other names.
  have hexporter {name : String} (hname : name ∈ [Names.package, Names.version]) :
      name ∉ [Names.bundleSymbolicName, Names.bundleVersion] := by
    revert name
    decide
  refine ⟨hns, ?_, v, ?_, ?_⟩
  · rw [hattributes, Table.get?_insertAll_of_notMem _ (hexporter (by simp)), hname]
  · exact elim_eq_some_of_packageVersion htext hv
  · rw [hattributes, Table.get?_insertAll_of_notMem _ (hexporter (by simp)), hversion]

/-- The exported packages of a header are those of the paths of its clauses. -/
theorem readExports_eq_ok {text bundle : String} {bundleVersion : Version} {es : List Capability}
    (h : readExports text bundle bundleVersion = .ok es) :
    (∀ c, HasClause text c → ∀ package ∈ c.paths,
      ∃ e ∈ es, exportedPackage bundle bundleVersion c package = .ok e) ∧
    ∀ e ∈ es, ∃ c, HasClause text c ∧
      ∃ package ∈ c.paths, exportedPackage bundle bundleVersion c package = .ok e := by
  obtain ⟨cs, hcs, h⟩ := bind_eq_ok_iff.mp h
  obtain ⟨lists, hlists, h⟩ := bind_eq_ok_iff.mp h
  -- Without the check that no clause names the exporting bundle, the header is read path by path.
  have hpaths : forEachPath cs (exportedPackage bundle bundleVersion) = .ok es := by
    refine map_eq_ok_iff.mpr ⟨lists, ?_, Except.ok.inj h⟩
    refine mapM_eq_ok_of_imp (fun c es hc => ?_) hlists
    split at hc
    · cases hc
    · exact hc
  obtain ⟨hok, hmem⟩ := forEachPath_eq_ok hpaths
  constructor
  · intro c hc package hpackage
    obtain ⟨e, he⟩ := hok c (hc.mem hcs) package hpackage
    exact ⟨e, (hmem e).mpr ⟨c, hc.mem hcs, package, hpackage, he⟩, he⟩
  · intro e he
    obtain ⟨c, hc, hpath⟩ := (hmem e).mp he
    exact ⟨c, ⟨cs, hcs, hc⟩, hpath⟩

section Imports

variable {c : HeaderClause} {package : String} {dynamic : Bool}

/-- A package has a name, and it does not belong to the platform. -/
def IsOrdinary (package : String) : Prop :=
  package ≠ "" ∧ package ≠ "." ∧ ¬ "java.".toList <+: package.toList

/-- A package that ends with a star is the star alone, or all packages behind a dot. -/
def IsWhole (package : String) : Prop :=
  package ≠ "*" → ['*'] <:+ package.toList → ['.', '*'] <:+ package.toList

/-- The packages that are not refused have a name and do not belong to the platform. -/
theorem checkPackage_eq_ok_iff {use : PackageUse} {u : Unit} :
    checkPackage use package = .ok u ↔ IsOrdinary package := by
  unfold checkPackage IsOrdinary
  rw [← List.isPrefixOf_iff_prefix]
  split
  · simp; tauto
  · split <;> simp_all

/-- The wildcards that are not refused are whole. -/
theorem isPartialWildcard_eq_false_iff : isPartialWildcard package = false ↔ IsWhole package := by
  unfold isPartialWildcard IsWhole
  simp only [← List.isSuffixOf_iff_suffix]
  cases hstar : ['*'].isSuffixOf package.toList <;> simp

/-- A reading that ends with an error gives nothing. -/
theorem throw_bind_ne_ok {fault : RuleFault} {f : Unit → Except Error (List Requirement)}
    {rs : List Requirement} : (throw (.rule fault) >>= f) ≠ .ok rs :=
  nofun

/-- A package is read if its name is accepted and its clause is. -/
theorem importPackages_cons_eq_ok_iff {seen : List String} {others : List (HeaderClause × String)}
    {rs : List Requirement} : importPackages dynamic seen ((c, package) :: others) = .ok rs ↔
      IsOrdinary package ∧ (dynamic = true → IsWhole package) ∧
      (dynamic = false → package ∉ seen) ∧ ∃ r rs', importedPackage dynamic c package = .ok r ∧
        importPackages dynamic (package :: seen) others = .ok rs' ∧ rs = r :: rs' := by
  have hwildcard : (dynamic = true → IsWhole package) ↔
      ¬ (dynamic && isPartialWildcard package) = true := by
    rw [← isPartialWildcard_eq_false_iff]
    cases dynamic <;> simp
  have hseen : (dynamic = false → package ∉ seen) ↔
      ¬ (!dynamic && seen.contains package) = true := by
    cases dynamic <;> simp
  -- The three checks of a name are made in this order, and each of them ends the reading.
  rw [importPackages, hwildcard, hseen]
  simp only [bind_eq_ok_iff, checkPackage_eq_ok_iff, exists_and_left, exists_const]
  refine and_congr_right fun _ => ?_
  split
  next h => exact iff_of_false throw_bind_ne_ok fun hnot => hnot.1 h
  next h =>
    rw [and_iff_right h]
    split
    next h => exact iff_of_false throw_bind_ne_ok fun hnot => hnot.1 h
    next h =>
      rw [and_iff_right h]
      simp only [bind_eq_ok_iff, pure, Except.pure, Except.ok.injEq, eq_comm (a := rs)]

/-- Packages are read if each of them has a name that is accepted and a clause that is, and, when
they are imported at once, if they are distinct and none of them was seen before. -/
theorem importPackages_eq_ok_iff {seen : List String} {packages : List (HeaderClause × String)}
    {rs : List Requirement} : importPackages dynamic seen packages = .ok rs ↔
      (∀ p ∈ packages, IsOrdinary p.2) ∧ (dynamic = true → ∀ p ∈ packages, IsWhole p.2) ∧
      (dynamic = false →
        (packages.map Prod.snd).Nodup ∧ (packages.map Prod.snd).Disjoint seen) ∧
      List.Forall₂ (fun p r => importedPackage dynamic p.1 p.2 = .ok r) packages rs := by
  induction packages generalizing seen rs with
  | nil =>
    rw [importPackages, List.forall₂_nil_left_iff]
    simp [eq_comm]
  | cons first others ih =>
    obtain ⟨c, package⟩ := first
    -- The first package counts as seen for the others, and this keeps all of them apart.
    have hdistinct : (((c, package) :: others).map Prod.snd).Nodup ∧
        (((c, package) :: others).map Prod.snd).Disjoint seen ↔ package ∉ seen ∧
          (others.map Prod.snd).Nodup ∧ (others.map Prod.snd).Disjoint (package :: seen) := by
      rw [List.map_cons, List.nodup_cons, List.disjoint_cons_left, List.disjoint_cons_right]
      tauto
    rw [importPackages_cons_eq_ok_iff, hdistinct, List.forall₂_cons_left_iff]
    simp only [ih, List.forall_mem_cons]
    constructor
    · rintro ⟨hordinary, hwhole, hseen, r, rs', hr, ⟨hordinaries, hwholes, hdistinct, hrs⟩, rfl⟩
      exact ⟨⟨hordinary, hordinaries⟩, fun h => ⟨hwhole h, hwholes h⟩,
        fun h => ⟨hseen h, hdistinct h⟩, r, rs', hr, hrs, rfl⟩
    · rintro ⟨⟨hordinary, hordinaries⟩, hwhole, hdistinct, r, rs', hr, hrs, rfl⟩
      exact ⟨hordinary, fun h => (hwhole h).1, fun h => (hdistinct h).1, r, rs', hr,
        ⟨hordinaries, fun h => (hwhole h).2, fun h => (hdistinct h).2, hrs⟩, rfl⟩

end Imports

/-- Without the checks, which only refuse some packages, the packages are imported one by one. -/
theorem mapM_of_importPackages_eq_ok {dynamic : Bool} {seen : List String}
    {packages : List (HeaderClause × String)} {rs : List Requirement}
    (h : importPackages dynamic seen packages = .ok rs) :
    packages.mapM (fun p => importedPackage dynamic p.1 p.2) = .ok rs :=
  mapM_eq_ok_iff.mpr (importPackages_eq_ok_iff.mp h).2.2.2

/-- Each path of a clause of a header of imports is imported. -/
theorem exists_of_readImports_eq_ok {text : String} {dynamic : Bool} {rs : List Requirement}
    (h : readImports text dynamic = .ok rs) {c : HeaderClause} (hc : HasClause text c)
    {package : String} (hpackage : package ∈ c.paths) :
    ∃ r ∈ rs, importedPackage dynamic c package = .ok r := by
  obtain ⟨cs, hcs, h⟩ := bind_eq_ok_iff.mp h
  obtain ⟨hok, hmem⟩ := mapM_eq_ok (mapM_of_importPackages_eq_ok h)
  have hlisted : (c, package) ∈ cs.flatMap fun c => c.paths.map (c, ·) :=
    List.mem_flatMap.mpr ⟨c, hc.mem hcs, List.mem_map_of_mem hpackage⟩
  obtain ⟨r, hr⟩ := hok (c, package) hlisted
  exact ⟨r, (hmem r).mpr ⟨(c, package), hlisted, hr⟩, hr⟩

/-- Each path of a clause of a header of required bundles is required in the range of the clause. -/
theorem exists_of_readRequiredBundles_eq_ok {text : String} {rs : List Requirement}
    (h : readRequiredBundles text = .ok rs) {c : HeaderClause} (hc : HasClause text c) :
    ∃ range, bundleRange c = .ok range ∧
      ∀ bundle ∈ c.paths, ∃ r ∈ rs, requiredBundle Names.bundle c range bundle = .ok r := by
  obtain ⟨cs, hcs, h⟩ := bind_eq_ok_iff.mp h
  obtain ⟨lists, hlists, h⟩ := bind_eq_ok_iff.mp h
  obtain rfl := Except.ok.inj h
  obtain ⟨hok, hmem⟩ := mapM_eq_ok hlists
  obtain ⟨rs, hrs⟩ := hok c (hc.mem hcs)
  obtain ⟨range, hrange, hpaths⟩ := bind_eq_ok_iff.mp hrs
  refine ⟨range, hrange, fun bundle hbundle => ?_⟩
  obtain ⟨hbundles, hmemBundles⟩ := mapM_eq_ok hpaths
  obtain ⟨r, hr⟩ := hbundles bundle hbundle
  refine ⟨r, List.mem_flatten.mpr ⟨rs, ?_, ?_⟩, hr⟩
  · exact (hmem rs).mpr ⟨c, hc.mem hcs, hrs⟩
  · exact (hmemBundles r).mpr ⟨bundle, hbundle, hr⟩

/-- The capability of a bundle has its name and version. -/
theorem readSymbolicName_eq_ok {text name : String} {version : Version} {bundle : Capability}
    (h : readSymbolicName text version = .ok (name, bundle)) :
    bundle.ns = Names.bundle ∧ bundle.attributes.get? Names.bundle = some (.str name) ∧
      bundle.attributes.get? Names.bundleVersion = some (.version version) := by
  unfold readSymbolicName at h
  simp only [bind_eq_ok_iff] at h
  obtain ⟨_, -, ⟨c, path⟩, -, others, hothers, bundle', hbundle, h⟩ := h
  obtain ⟨rfl, rfl⟩ := Prod.mk.inj (Except.ok.inj h)
  obtain ⟨hns, -, hattributes⟩ := Capability.ofParts_eq_ok hbundle
  rw [hattributes]
  exact ⟨hns, get?_insertAll_typedAttributes hothers (by decide) (by simp) (by simp) _ _⟩

/-- There is a disjunction unless there is no filter. -/
theorem disjunction?_eq_none_iff {fs : List Filter} : disjunction? fs = none ↔ fs = [] := by
  unfold disjunction?
  split <;> simp_all

/-- The requirement for a condition on execution environments. -/
structure RequiresEnvironment (f : Filter) (r : Requirement) : Prop where
  /-- The namespace is the one of environments. -/
  ns_eq : r.ns = Names.environment
  /-- The filter is the condition. -/
  filter_eq : r.filter = f
  /-- The filter says it all. -/
  attributes_eq : r.attributes = .empty
  /-- The filter is recorded. -/
  directives_eq : r.directives = .ofList [(Names.filter, f.text)]

/-- All environments that a header lists are one requirement, if there are any. -/
theorem readEnvironments_eq_ok {text : String} {rs : List Requirement}
    (h : readEnvironments text = .ok rs) : ∃ fs,
      List.Forall₂ (fun e f => Environment.filter e = .ok f) (environments text) fs ∧
        List.Forall₂ RequiresEnvironment (disjunction? fs).toList rs := by
  obtain ⟨fs, hfs, h⟩ := bind_eq_ok_iff.mp h
  refine ⟨fs, mapM_eq_ok_iff.mp hfs, ?_⟩
  split at h
  next hnone =>
    obtain rfl := Except.ok.inj h
    rw [hnone]
    exact .nil
  next f hsome =>
    obtain ⟨r, hr, h⟩ := bind_eq_ok_iff.mp h
    obtain rfl := Except.ok.inj h
    obtain ⟨hns, hdirectives, hattributes, hfilter⟩ := Requirement.withFilter_eq_ok hr
    rw [hsome]
    exact .cons ⟨hns, hfilter, hattributes, hdirectives⟩ .nil

/-! ### Resources -/

/-- Whether a capability belongs to one of the namespaces of wiring. -/
def isWiring (c : Capability) : Bool :=
  Names.wiring.toList.isPrefixOf c.ns.toList

/-- The location of a resource is no wiring. -/
theorem isWiring_of_location {uri : Option String} {location : List Capability}
    (h : List.Forall₂ (fun uri c => locationCapability uri = .ok c) uri.toList location) :
    ∀ c ∈ location, isWiring c = false := by
  intro c hc
  obtain ⟨uri, -, hread⟩ := exists_of_mem_of_forall₂ h hc
  rw [isWiring, (Capability.ofParts_eq_ok hread).1]
  rfl

/-- A namespace that is not refused does not start as those of wiring do. -/
theorem isPrefixOf_of_checkNamespace {header ns : String} {u : Unit}
    (h : checkNamespace header ns = .ok u) :
    Names.wiring.toList.isPrefixOf ns.toList = false := by
  unfold checkNamespace at h
  split at h
  · cases h
  next hns => exact Bool.eq_false_iff.mpr hns

/-- The capabilities that a manifest provides by name are no wiring. -/
theorem isWiring_of_readCapabilities {text : String} {cs : List Capability}
    (h : readCapabilities text = .ok cs) : ∀ c ∈ cs, isWiring c = false := by
  obtain ⟨clauses, -, h⟩ := bind_eq_ok_iff.mp h
  intro c hc
  obtain ⟨clause, -, ns, -, hread⟩ := ((forEachPath_eq_ok h).2 c).mp hc
  simp only [bind_eq_ok_iff] at hread
  obtain ⟨_, hcheck, attributes, -, hparts⟩ := hread
  rw [isWiring, (Capability.ofParts_eq_ok hparts).1]
  exact isPrefixOf_of_checkNamespace hcheck

/-- The services that a manifest exports are no wiring. -/
theorem isWiring_of_readExportedServices {text : String} {cs : List Capability}
    (h : readExportedServices text = .ok cs) : ∀ c ∈ cs, isWiring c = false := by
  obtain ⟨clauses, -, h⟩ := bind_eq_ok_iff.mp h
  intro c hc
  obtain ⟨clause, -, ns, -, hread⟩ := ((forEachPath_eq_ok h).2 c).mp hc
  obtain ⟨attributes, -, hparts⟩ := bind_eq_ok_iff.mp hread
  rw [isWiring, (Capability.ofParts_eq_ok hparts).1]
  rfl

/-- The capabilities that others require by the name of a bundle, or attach to, are that of the
bundle and that of the host. -/
theorem of_mem_bundleCapabilities {bundle c : Capability} {isFragment : Bool}
    {bundles : List Capability} (h : bundleCapabilities bundle isFragment = .ok bundles)
    (hc : c ∈ bundles) : c = bundle ∨ c.ns = Names.host := by
  unfold bundleCapabilities at h
  split at h
  · obtain rfl := Except.ok.inj h
    cases hc
  · split at h
    · obtain ⟨host, hhost, rfl⟩ := map_eq_ok_iff.mp h
      rcases List.mem_pair.mp hc with rfl | rfl
      · exact .inl rfl
      · exact .inr (Capability.ofParts_eq_ok hhost).1
    · obtain rfl := Except.ok.inj h
      exact .inl (List.mem_singleton.mp hc)

/-- A bundle that is no fragment can be required. -/
theorem mem_bundleCapabilities {bundle : Capability} {bundles : List Capability}
    (h : bundleCapabilities bundle false = .ok bundles) : bundle ∈ bundles := by
  rw [bundleCapabilities, if_neg (by decide)] at h
  split at h
  · obtain ⟨host, -, rfl⟩ := map_eq_ok_iff.mp h
    exact List.mem_cons_self ..
  · obtain rfl := Except.ok.inj h
    exact List.mem_singleton_self _

/-- The capabilities and requirements of a resource by the header that they come from. -/
structure Contents where
  /-- The bundle that the symbolic name gives, for a fragment too. -/
  bundle : Capability
  /-- Where the content of the resource is found. -/
  location : List Capability
  /-- What others may require or attach to by the name of the bundle. -/
  bundles : List Capability
  /-- The exported packages. -/
  packages : List Capability
  /-- The generic capabilities. -/
  generics : List Capability
  /-- The exported services. -/
  services : List Capability
  /-- The host of a fragment. -/
  hosts : List Requirement
  /-- The imported packages. -/
  imports : List Requirement
  /-- The required bundles. -/
  required : List Requirement
  /-- The generic requirements. -/
  genericRequirements : List Requirement
  /-- The packages that are imported when they are used. -/
  dynamicImports : List Requirement
  /-- The execution environments. -/
  environments : List Requirement
  /-- The imported services. -/
  importedServices : List Requirement

/-- The contents of a resource are read from the headers of a manifest. -/
structure Contents.ReadFrom (s : Contents) (m : Manifest) (uri : Option String) (b : Resource) :
    Prop where
  /-- The version is `0.0.0` unless a header gives one. -/
  version_eq : (m.header? Names.versionHeader).elim (.ok .zero) Version.read = .ok b.version
  /-- The symbolic name gives the name of the resource. -/
  bundle_eq : ∃ text, m.header? Names.symbolicNameHeader = some text ∧
    readSymbolicName text b.version = .ok (b.name, s.bundle)
  /-- A fragment requires its host. -/
  hosts_eq : List.Forall₂ (fun text r => readFragmentHost text = .ok r)
    (m.header? Names.fragmentHostHeader).toList s.hosts
  /-- A resource with a host is a fragment. -/
  kind_eq : b.kind = if s.hosts.isEmpty then Names.bundleKind else Names.fragmentKind
  /-- The location is there if it is known. -/
  location_eq : List.Forall₂ (fun uri c => locationCapability uri = .ok c) uri.toList s.location
  /-- A fragment cannot be required or attached to. -/
  bundles_eq : bundleCapabilities s.bundle (!s.hosts.isEmpty) = .ok s.bundles
  /-- The packages are exported by the resource. -/
  packages_eq : readExports (m.header Names.exportPackageHeader) b.name b.version = .ok s.packages
  /-- Other capabilities have a generic header. -/
  generics_eq : readCapabilities (m.header Names.provideCapabilityHeader) = .ok s.generics
  /-- Exported services have a header of their own. -/
  services_eq : readExportedServices (m.header Names.exportServiceHeader) = .ok s.services
  /-- Packages are imported at once. -/
  imports_eq : readImports (m.header Names.importPackageHeader) false = .ok s.imports
  /-- Bundles are required. -/
  required_eq : readRequiredBundles (m.header Names.requireBundleHeader) = .ok s.required
  /-- Other requirements have a generic header. -/
  genericRequirements_eq :
    readRequirements (m.header Names.requireCapabilityHeader) = .ok s.genericRequirements
  /-- Packages are imported when they are used. -/
  dynamicImports_eq : readImports (m.header Names.dynamicImportHeader) true = .ok s.dynamicImports
  /-- All environments are one requirement. -/
  environments_eq : readEnvironments (m.header Names.environmentHeader) = .ok s.environments
  /-- Imported services have a header of their own. -/
  importedServices_eq :
    readImportedServices (m.header Names.importServiceHeader) = .ok s.importedServices
  /-- The resource provides what is read, in order. -/
  provided_eq : b.provided = s.location ++ s.bundles ++ s.packages ++ s.generics ++ s.services
  /-- The resource requires what is read, in order. -/
  requirements_eq : b.requirements = s.hosts ++ s.imports ++ s.required ++ s.genericRequirements ++
    s.dynamicImports ++ s.environments ++ s.importedServices

/-- A manifest that is read is read header by header. -/
theorem exists_readFrom_of_resource {m : Manifest} {config : Config} {uri : Option String}
    {b : Resource} (h : m.resource config uri = .ok b) : ∃ s : Contents, s.ReadFrom m uri b := by
  unfold resource at h
  simp only [bind_eq_ok_iff] at h
  obtain ⟨_, -, version, hversion, text, htext, ⟨name, bundle⟩, hbundle, hosts, hhosts, location,
    hlocation, bundles, hbundles, packages, hpackages, generics, hgenerics, services, hservices,
    imports, himports, required, hrequired, requirements, hrequirements, dynamicImports,
    hdynamicImports, environments, henvironments, importedServices, himportedServices, h⟩ := h
  obtain rfl := Except.ok.inj h
  have hname : ∃ text, m.header? Names.symbolicNameHeader = some text ∧
      readSymbolicName text version = .ok (name, bundle) :=
    ⟨text, elim_eq_ok_iff.mp htext, hbundle⟩
  exact ⟨⟨bundle, location, bundles, packages, generics, services, hosts, imports, required,
      requirements, dynamicImports, environments, importedServices⟩, hversion, hname,
    elim_singleton_eq_ok_iff.mp hhosts, rfl, elim_singleton_eq_ok_iff.mp hlocation, hbundles,
    hpackages, hgenerics, hservices, himports, hrequired, hrequirements,
    hdynamicImports, henvironments, himportedServices, rfl, rfl⟩

/-- The header of imports that take place at once, or when they are used. -/
def importHeader (dynamic : Bool) : String :=
  if dynamic then Names.dynamicImportHeader else Names.importPackageHeader

/-- A resource has the capability `bundle`, the packages `exports` and the requirements for packages
and bundles that a manifest describes, and no other capability of wiring but that of a host. -/
structure Wires (m : Manifest) (b : Resource) (bundle : Capability)
    (exports : List Capability) : Prop where
  /-- The bundle has the name and the version of the resource. -/
  bundle_eq : ∃ text, readSymbolicName text b.version = .ok (b.name, bundle)
  /-- Others may require a bundle, but not a fragment. -/
  bundle_mem : m.header? Names.fragmentHostHeader = none → bundle ∈ b.provided
  /-- The packages are the exported ones. -/
  exports_eq : readExports (m.header Names.exportPackageHeader) b.name b.version = .ok exports
  /-- The resource provides the packages. -/
  exports_subset : exports ⊆ b.provided
  /-- There are no other capabilities of wiring. -/
  of_isWiring : ∀ e ∈ b.provided, isWiring e = true →
    e ∈ exports ∨ e = bundle ∨ e.ns = Names.host
  /-- The resource requires what is imported, in either way. -/
  imports_eq : ∀ dynamic, ∃ rs, rs ⊆ b.requirements ∧
    readImports (m.header (importHeader dynamic)) dynamic = .ok rs
  /-- The resource requires the required bundles. -/
  required_eq : ∃ rs, rs ⊆ b.requirements ∧
    readRequiredBundles (m.header Names.requireBundleHeader) = .ok rs

/-- A resource wires as its manifest describes. -/
theorem resource_eq_ok {m : Manifest} {config : Config} {uri : Option String} {b : Resource}
    (h : m.resource config uri = .ok b) : ∃ bundle exports, m.Wires b bundle exports := by
  obtain ⟨s, hs⟩ := exists_readFrom_of_resource h
  have hprovided (e : Capability) : e ∈ b.provided ↔
      (((e ∈ s.location ∨ e ∈ s.bundles) ∨ e ∈ s.packages) ∨ e ∈ s.generics) ∨ e ∈ s.services := by
    simp only [hs.provided_eq, List.mem_append]
  refine ⟨s.bundle, s.packages, hs.bundle_eq.imp fun _ => And.right, fun hnone => ?_,
    hs.packages_eq, fun e he => (hprovided e).mpr (.inl (.inl (.inr he))),
    fun e he hwiring => ?_, fun dynamic => ?_, s.required,
    fun r hr => by simp [hs.requirements_eq, hr], hs.required_eq⟩
  -- no host is required, so the resource is not taken for a fragment
  · have hhosts := hs.hosts_eq
    have hbundles := hs.bundles_eq
    rw [hnone] at hhosts
    rw [List.forall₂_nil_left_iff.mp hhosts] at hbundles
    exact (hprovided s.bundle).mpr (.inl (.inl (.inl (.inr (mem_bundleCapabilities hbundles)))))
  -- the location, the bundle and its host, the packages, the generic capabilities, the services
  · rcases (hprovided e).mp he with (((he | he) | he) | he) | he
    · exact absurd hwiring (by simp [isWiring_of_location hs.location_eq e he])
    · exact .inr (of_mem_bundleCapabilities hs.bundles_eq he)
    · exact .inl he
    · exact absurd hwiring (by simp [isWiring_of_readCapabilities hs.generics_eq e he])
    · exact absurd hwiring (by simp [isWiring_of_readExportedServices hs.services_eq e he])
  · cases dynamic with
    | true =>
      exact ⟨s.dynamicImports, fun r hr => by simp [hs.requirements_eq, hr], hs.dynamicImports_eq⟩
    | false => exact ⟨s.imports, fun r hr => by simp [hs.requirements_eq, hr], hs.imports_eq⟩

/-- A capability of wiring is a package, the bundle or its host. -/
theorem Wires.of_mem_capabilities {m : Manifest} {b : Resource} {bundle : Capability}
    {exports : List Capability} (hwires : m.Wires b bundle exports) {e : Capability}
    (he : e ∈ b.capabilities) (hwiring : isWiring e = true) :
    (e ∈ exports ∧ e.ns = Names.package) ∨ (e = bundle ∧ e.ns = Names.bundle) ∨
      e.ns = Names.host := by
  -- The identity, which every resource has, does not belong to a namespace of wiring.
  have hprovided : e ∈ b.provided := by
    rcases List.mem_cons.mp he with rfl | hprovided
    · have hidentity : isWiring (Resource.identity b.name b.kind b.version) = false := by
        show Names.wiring.toList.isPrefixOf Names.identity.toList = false
        decide
      cases hidentity.symm.trans hwiring
    · exact hprovided
  rcases hwires.of_isWiring e hprovided hwiring with hexport | rfl | hhost
  · obtain ⟨c, -, package, -, hread⟩ := (readExports_eq_ok hwires.exports_eq).2 e hexport
    exact .inl ⟨hexport, (exportedPackage_eq_ok hread).1⟩
  · obtain ⟨text, hread⟩ := hwires.bundle_eq
    exact .inr (.inl ⟨rfl, (readSymbolicName_eq_ok hread).1⟩)
  · exact .inr (.inr hhost)

end Manifest

end BundleWiring
