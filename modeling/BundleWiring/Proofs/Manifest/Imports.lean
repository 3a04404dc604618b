import BundleWiring.Proofs.Manifest.Parts

/-!
# Imports that are Accepted

The packages of a header of imports are checked one after the other, in the order of the clauses and
their paths, and the first fault ends the reading. Packages that are imported at once are compared
with all packages before them; those that are imported when they are used may be repeated, but their
wildcards are restricted. Apart from that, whether a package is accepted depends on its own name and
on the rest of its clause only. This module proves:

- `exists_typedAttributes_iff` and `mem_typedAttributes_iff`: the attributes that are read one by
  one;
- `exists_importedPackage_iff`: which clauses can be imported (`Importable`);
- `exists_importPackages_iff`: which clauses can be imported together (`AreImportable`);
- `readImports_exact`: which headers of imports are accepted, and what they give.
-/

namespace BundleWiring

open Text

/-- The value of an attribute of a clause as its declared type; an undeclared one is a text. -/
def HeaderClause.readAttribute (c : HeaderClause) (name raw : String) : Except Error AttrValue :=
  (c.types.get? name).elim (.ok (.str raw)) (AttrValue.read name · raw)

namespace Manifest

variable {c : HeaderClause} {package text : String} {dynamic : Bool}

/-! ### Attributes -/

section Attributes

variable {except : List String}

/-- The attributes of a clause can be read if each of them can. -/
theorem exists_typedAttributes_iff : (∃ others, typedAttributes c except = .ok others) ↔
    ∀ name raw, c.attributes.get? name = some raw → name ∉ except →
      ∃ value, c.readAttribute name raw = .ok value := by
  have hread (e : String × String) : (∃ other, (e.1, ·) <$> c.readAttribute e.1 e.2 = .ok other) ↔
      ∃ value, c.readAttribute e.1 e.2 = .ok value := by
    simp only [map_eq_ok_iff]
    exact ⟨fun ⟨_, value, hvalue, _⟩ => ⟨value, hvalue⟩,
      fun ⟨value, hvalue⟩ => ⟨_, value, hvalue, rfl⟩⟩
  refine exists_mapM_eq_ok_iff.trans ⟨fun h name raw hname hkept => ?_, fun h e he => ?_⟩
  · have hmem := c.attributes.mem_entries_iff.mpr hname
    exact (hread (name, raw)).mp (h (name, raw) (List.mem_filter.mpr ⟨hmem, by simpa using hkept⟩))
  · obtain ⟨hmem, hkept⟩ := List.mem_filter.mp he
    exact (hread e).mpr (h e.1 e.2 (c.attributes.mem_entries_iff.mp hmem) (by simpa using hkept))

/-- Each of them is read under its name. -/
theorem mem_typedAttributes_iff {others : List (String × AttrValue)}
    (h : typedAttributes c except = .ok others) {name : String} {value : AttrValue} :
    (name, value) ∈ others ↔ ∃ raw, c.attributes.get? name = some raw ∧ name ∉ except ∧
      c.readAttribute name raw = .ok value := by
  rw [(mapM_eq_ok h).2]
  constructor
  · rintro ⟨⟨name', raw⟩, he, hread⟩
    obtain ⟨value', hvalue, heq⟩ := map_eq_ok_iff.mp hread
    obtain ⟨rfl, rfl⟩ := Prod.mk.inj heq
    obtain ⟨hmem, hkept⟩ := List.mem_filter.mp he
    exact ⟨raw, c.attributes.mem_entries_iff.mp hmem, by simpa using hkept, hvalue⟩
  · rintro ⟨raw, hname, hkept, hvalue⟩
    have hmem := c.attributes.mem_entries_iff.mpr hname
    exact ⟨(name, raw), List.mem_filter.mpr ⟨hmem, by simpa using hkept⟩,
      map_eq_ok_iff.mpr ⟨value, hvalue, rfl⟩⟩

end Attributes

/-! ### Clauses -/

/-- What a clause says about the packages that it imports can be asked for. -/
structure Importable (c : HeaderClause) : Prop where
  /-- A version that is given under both names is the same, but for blanks. -/
  versions_agree : ∀ version specification, c.attributes.get? Names.version = some version →
    c.attributes.get? Names.specificationVersion = some specification →
      trimText version = trimText specification
  /-- The version, if there is one, is a range. -/
  version_isRange : ∀ text, c.versionText? = some text →
    ∃ range, VersionRange.parse? (trimText text) = some range
  /-- The other attributes have values of their declared types. -/
  attributes_read : ∀ name raw, c.attributes.get? name = some raw →
    name ∉ [Names.package, Names.version, Names.specificationVersion] →
      ∃ value, c.readAttribute name raw = .ok value
  /-- The version of the exporting bundle is a range, if it is given as a text. -/
  bundleVersion_isRange : ∀ raw text, c.attributes.get? Names.bundleVersion = some raw →
    c.readAttribute Names.bundleVersion raw = .ok (.str text) →
      ∃ range, VersionRange.parse? text = some range

/-- A version is asked for if it is a range. -/
theorem exists_versions_iff {version : Option String} :
    (∃ versions, version.elim (.ok []) (fun text => (fun range =>
      [(Names.version, AttrValue.range range)]) <$> VersionRange.read text) = .ok versions) ↔
    ∀ text, version = some text → ∃ range, VersionRange.parse? text = some range := by
  cases version with
  | none => simp
  | some text => simp [map_eq_ok_iff, VersionRange.read, elim_eq_ok_iff]

/-- An attribute of an import is accepted unless it is a malformed range of bundle versions. -/
theorem exists_importAttribute_iff {name : String} {value : AttrValue} :
    (∃ asked, importAttribute name value = .ok asked) ↔
      ∀ text, name = Names.bundleVersion → value = .str text →
        ∃ range, VersionRange.parse? text = some range := by
  cases value with
  | str text =>
    by_cases hname : name = Names.bundleVersion
    · simp [importAttribute, hname, map_eq_ok_iff, VersionRange.read, elim_eq_ok_iff]
    · simp [importAttribute, hname]
  | _ => simp [importAttribute]

/-- A requirement that keeps no attributes can always be made. -/
theorem exists_synthesizedRequirement {ns : String} (hns : trim ns.toList ≠ [])
    (directives : Directives) (attributes : Attributes) :
    ∃ r, synthesizedRequirement ns directives attributes false = .ok r := by
  let filter := Filter.ofAttributes attributes
  let clause : Clause :=
    { ns, directives := directives.insert Names.filter filter.text, attributes := .empty
      ns_proper := hns, disjoint := fun _ _ => rfl }
  have hclause : Clause.ofParts ns (directives.insert Names.filter filter.text) .empty =
      .ok clause := Clause.ofParts_eq_ok_iff.mpr ⟨rfl, rfl, rfl⟩
  exact ⟨{ clause, filter }, map_eq_ok_iff.mpr ⟨clause, hclause, rfl⟩⟩

/-- A package is imported if what its clause says can be asked for. -/
theorem exists_importedPackage_iff :
    (∃ r, importedPackage dynamic c package = .ok r) ↔ Importable c := by
  unfold importedPackage
  simp only [bind_eq_ok_iff]
  constructor
  · rintro ⟨r, version, hversion, versions, hversions, given, hgiven, others, hothers, -⟩
    obtain ⟨hagree, rfl⟩ := packageVersion_eq_ok_iff.mp hversion
    refine {
      versions_agree := hagree
      version_isRange := fun text htext => ?_
      attributes_read := exists_typedAttributes_iff.mp ⟨given, hgiven⟩
      bundleVersion_isRange := fun raw text hraw hread => ?_ }
    · exact exists_versions_iff.mp ⟨versions, hversions⟩ _ (by rw [htext, Option.map_some])
    · have hmem : (Names.bundleVersion, AttrValue.str text) ∈ given :=
        (mem_typedAttributes_iff hgiven).mpr ⟨raw, hraw, by decide, hread⟩
      obtain ⟨asked, hasked⟩ := (mapM_eq_ok hothers).1 _ hmem
      exact exists_importAttribute_iff.mp ⟨asked, hasked⟩ text rfl rfl
  -- Each step succeeds for its own reason, and the last one always does.
  · intro hc
    have hversion : packageVersion c package = .ok (c.versionText?.map trimText) :=
      packageVersion_eq_ok_iff.mpr ⟨hc.versions_agree, rfl⟩
    obtain ⟨versions, hversions⟩ := exists_versions_iff.mpr fun text htext => by
      obtain ⟨given, hgiven, rfl⟩ := Option.map_eq_some_iff.mp htext
      exact hc.version_isRange given hgiven
    obtain ⟨given, hgiven⟩ := exists_typedAttributes_iff.mpr hc.attributes_read
    obtain ⟨others, hothers⟩ : ∃ others,
        given.mapM (fun e => importAttribute e.1 e.2) = .ok others := by
      refine exists_mapM_eq_ok_iff.mpr fun ⟨name, value⟩ hmem => ?_
      refine exists_importAttribute_iff.mpr fun text hname hvalue => ?_
      obtain rfl := hname
      obtain rfl := hvalue
      obtain ⟨raw, hraw, -, hread⟩ := (mem_typedAttributes_iff hgiven).mp hmem
      exact hc.bundleVersion_isRange raw text hraw hread
    obtain ⟨r, hr⟩ := exists_synthesizedRequirement (show trim Names.package.toList ≠ [] by decide)
      (if dynamic then c.directives.insert Names.resolution Names.dynamic else c.directives)
      (.ofList ((Names.package, .str package) :: versions ++ others))
    exact ⟨r, _, hversion, versions, hversions, given, hgiven, others, hothers, hr⟩

/-! ### Headers -/

/-- The imports of a header are accepted, when they are imported at once or when they are used. -/
structure AreImportable (dynamic : Bool) (cs : List HeaderClause) : Prop where
  /-- Each path is the name of a package outside of the platform. -/
  ordinary : ∀ c ∈ cs, ∀ package ∈ c.paths, IsOrdinary package
  /-- Wildcards of dynamic imports stand for whole names. -/
  whole : dynamic = true → ∀ c ∈ cs, ∀ package ∈ c.paths, IsWhole package
  /-- Other packages are imported only once, in all clauses together. -/
  distinct : dynamic = false → (cs.flatMap (·.paths)).Nodup
  /-- What a clause says about its packages can be asked for. -/
  importable : ∀ c ∈ cs, c.paths ≠ [] → Importable c

/-- The paths of some clauses, without their clauses. -/
theorem map_snd_pathsOf (cs : List HeaderClause) :
    (pathsOf cs).map Prod.snd = cs.flatMap (·.paths) := by
  simp [pathsOf, List.map_flatMap, Function.comp_def]

/-- What holds of each path with its clause holds of each path of each clause. -/
theorem forall_mem_pathsOf_iff {cs : List HeaderClause} {P : HeaderClause → String → Prop} :
    (∀ p ∈ pathsOf cs, P p.1 p.2) ↔ ∀ c ∈ cs, ∀ package ∈ c.paths, P c package := by
  simp only [pathsOf, List.mem_flatMap, List.mem_map]
  constructor
  · exact fun h c hc package hpackage => h (c, package) ⟨c, hc, package, hpackage, rfl⟩
  · rintro h _ ⟨c, hc, package, hpackage, rfl⟩
    exact h c hc package hpackage

/-- The clauses of a header that is not blank are those that it is read as. -/
theorem readImports_eq_ok_iff (htext : trim text.toList ≠ []) {rs : List Requirement} :
    readImports text dynamic = .ok rs ↔
      ∃ cs, Header.read text = .ok cs ∧ importPackages dynamic [] (pathsOf cs) = .ok rs := by
  rw [readImports, bind_eq_ok_iff, clausesOf, if_neg (by rwa [List.isEmpty_iff])]
  rfl

/-- The packages of some clauses can be imported if the clauses are importable. -/
theorem exists_importPackages_iff {cs : List HeaderClause} :
    (∃ rs, importPackages dynamic [] (pathsOf cs) = .ok rs) ↔ AreImportable dynamic cs := by
  -- What is asked of each path with its clause is asked of each clause that has paths.
  have hclauses : (∀ p ∈ pathsOf cs, ∃ r, importedPackage dynamic p.1 p.2 = .ok r) ↔
      ∀ c ∈ cs, c.paths ≠ [] → Importable c := by
    simp only [exists_importedPackage_iff]
    refine (forall_mem_pathsOf_iff (P := fun c _ => Importable c)).trans ?_
    refine forall₂_congr fun c _ => ?_
    exact ⟨fun h hpaths => (List.exists_mem_of_ne_nil _ hpaths).elim h, fun h _ hpackage =>
      h (List.ne_nil_of_mem hpackage)⟩
  have hnames (P : String → Prop) : (∀ p ∈ pathsOf cs, P p.2) ↔
      ∀ c ∈ cs, ∀ package ∈ c.paths, P package := forall_mem_pathsOf_iff (P := fun _ => P)
  simp only [importPackages_eq_ok_iff, exists_and_left, ← mapM_eq_ok_iff, exists_mapM_eq_ok_iff,
    hnames, hclauses, map_snd_pathsOf, List.disjoint_nil_right, and_true]
  exact ⟨fun ⟨h1, h2, h3, h4⟩ => ⟨h1, h2, h3, h4⟩, fun h => ⟨h.1, h.2, h.3, h.4⟩⟩

/-- A header of imports is accepted exactly if its clauses are importable. It gives one requirement
for each path, in order, which keeps no attributes; a dynamic import says that it is one, whatever
its clause says. -/
theorem readImports_exact (dynamic : Bool) (htext : trim text.toList ≠ []) :
    ((∃ rs, readImports text dynamic = .ok rs) ↔
      ∃ cs, Header.read text = .ok cs ∧ AreImportable dynamic cs) ∧
    ∀ rs, readImports text dynamic = .ok rs → ∃ cs, Header.read text = .ok cs ∧
      List.Forall₂ (fun p r => ImportsPackage dynamic p.1 p.2 r ∧
        (dynamic = true → r.directives.get? Names.resolution = some Names.dynamic))
        (pathsOf cs) rs := by
  simp only [readImports_eq_ok_iff htext]
  constructor
  · rw [exists_comm]
    simp only [exists_and_left, exists_importPackages_iff]
  · rintro rs ⟨cs, hcs, hrs⟩
    refine ⟨cs, hcs, (importPackages_eq_ok_iff.mp hrs).2.2.2.imp fun p r hr => ?_⟩
    have himports := importsPackage_of_importedPackage hr
    refine ⟨himports, fun hdynamic => ?_⟩
    obtain ⟨_, _, _, _, -, -, -, -, hasks⟩ := himports.asks
    -- The directive of the clause, if there is one, is replaced.
    rw [hasks.directives_eq, if_pos hdynamic, Table.get?_insert, if_neg (by decide),
      Table.get?_insert, if_pos rfl]

/-- A wildcard that is imported two times: when it is used, but not at once. -/
theorem readImports_repeated : ∃ text,
    (∃ rs, readImports text true = .ok rs ∧ rs.length = 2 ∧
      ∀ r ∈ rs, r.directives.get? Names.resolution = some Names.dynamic) ∧
    ¬ ∃ rs, readImports text false = .ok rs := by
  let text := "p.*;version=\"[1,2)\",p.*;bundle-version=3;resolution:=optional"
  have htext : trim text.toList ≠ [] := by decide
  obtain ⟨cs, hcs, hpaths⟩ := exists_of_any_toOption (x := Header.read text)
    (fun cs => cs.flatMap (·.paths) == ["p.*", "p.*"]) (by decide +kernel)
  have hpaths : cs.flatMap (·.paths) = ["p.*", "p.*"] := eq_of_beq hpaths
  obtain ⟨rs, hrs, -⟩ := exists_of_any_toOption (x := readImports text true) (fun _ => true)
    (by decide +kernel)
  -- The two paths are the same, which is forbidden only if the imports are not dynamic.
  refine ⟨text, ⟨rs, hrs, ?_⟩, fun haccepted => ?_⟩
  · obtain ⟨cs', hcs', hall⟩ := (readImports_exact true htext).2 rs hrs
    obtain rfl : cs' = cs := Except.ok.inj (hcs'.symm.trans hcs)
    refine ⟨?_, fun r hr => ?_⟩
    · rw [← hall.length_eq, ← List.length_map (f := Prod.snd), map_snd_pathsOf, hpaths]
      rfl
    · obtain ⟨p, -, -, hdynamic⟩ := exists_of_mem_of_forall₂ hall hr
      exact hdynamic rfl
  · obtain ⟨cs', hcs', himportable⟩ := (readImports_exact false htext).1.mp haccepted
    obtain rfl : cs' = cs := Except.ok.inj (hcs'.symm.trans hcs)
    have hdistinct := himportable.distinct rfl
    rw [hpaths] at hdistinct
    exact absurd hdistinct (by decide)

end Manifest

end BundleWiring
