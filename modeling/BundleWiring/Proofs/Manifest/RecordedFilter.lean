import BundleWiring.Proofs.Filter.Names
import BundleWiring.Proofs.Header.Keys

/-!
# Recorded Filters

The requirements of a manifest record their filters as texts in the directive `filter`. The text of
a generic requirement is where its filter comes from, and the text for execution environments can
always be read again. The other filters are made from the attributes of clauses. Those are called by
keys of headers, in which some characters stand for themselves that end the names in filters, and
names are written without escapes. So such a text is read as the filter unless an attribute has one
of these characters in its name. This module proves:

- `Filter.properName_iff_of_isKey`: which keys of headers are proper names in filters;
- `asksFor_of_synthesizedRequirement`: what a requirement records that is made from attributes;
- `recorded_of_mem_requirements`: how the requirements of a resource record their filters;
- `parse_recorded_iff`: when a recorded text is read as the filter.
-/

namespace BundleWiring

open Text

/-! ### Keys of headers as names in filters -/

namespace Filter

/-- The characters that end the names in filters and stand for themselves in the keys of headers. -/
def reserved : List Char :=
  ['<', '>', '~', '(', ')']

/-- What is white space for filters is blank for headers. -/
theorem isBlank_of_mem_spaces : ∀ c ∈ Grammar.spaces, isBlank c = true :=
  List.all_eq_true.mp rfl

/-- A key is a proper name, unless it has a reserved character in it. -/
theorem properName_iff_of_isKey {key : String} (h : Header.isKey key = true) :
    ProperName key ↔ ∀ c ∈ key.toList, c ∉ reserved := by
  obtain ⟨hne, htrim, hend⟩ := Header.isKey_iff.mp h
  have hends : Grammar.nameEnds = '=' :: reserved := rfl
  constructor
  · intro hname c hc hreserved
    exact hname.notMem_nameEnds c hc (hends ▸ List.mem_cons_of_mem _ hreserved)
  · intro hnone
    refine ⟨hne, fun c hc hmem => ?_, fun c hc hspace => ?_, fun c hc => ?_⟩
    · rcases List.mem_cons.mp (hends ▸ hmem) with rfl | hreserved
      · exact absurd (hend _ hc) (by decide)
      · exact hnone c hc hreserved
    -- A key is trimmed, so there are no blanks at its ends.
    · rw [← htrim] at hc
      exact Bool.false_ne_true
        ((isBlank_of_mem_head?_trim hc).symm.trans (isBlank_of_mem_spaces c hspace))
    · rw [← htrim] at hc
      exact isBlank_of_mem_getLast?_trim hc

/-- A filter for attributes that are called by keys is read from its written form, unless one of
them has a reserved character in its name. -/
theorem parse_text_ofAttributes_iff_of_hasKeys {attributes : Attributes}
    (h : Header.HasKeys attributes) :
    parse (ofAttributes attributes).text = .ok (ofAttributes attributes) ↔
      ∀ name ∈ (ofAttributes attributes).names, ∀ c ∈ name.toList, c ∉ reserved := by
  rw [parse_text_ofAttributes_iff]
  simp only [mem_names_ofAttributes]
  exact forall₂_congr fun name hname => properName_iff_of_isKey (h name hname)

end Filter

namespace Manifest

open Header

variable {c : HeaderClause} {r : Requirement} {text : String} {attributes : Attributes}

/-- The names of the attributes that are not written as keys of a header. -/
def givenNames : List String :=
  [Names.package, Names.bundle, Names.host, Names.environment, Names.version, Names.bundleVersion,
    Names.objectClass]

/-- The names that are given to attributes could be keys. -/
theorem isKey_of_mem_givenNames : ∀ name ∈ givenNames, isKey name = true :=
  List.all_eq_true.mp (by decide +kernel)

/-- The names that are given to attributes can be written in filters. -/
theorem properName_of_mem_givenNames {name : String} (hname : name ∈ givenNames) :
    Filter.ProperName name := by
  rw [Filter.properName_iff_of_isKey (isKey_of_mem_givenNames name hname)]
  have hnone :
      givenNames.all (fun name => name.toList.all (!Filter.reserved.contains ·)) = true := by
    decide +kernel
  simpa using List.all_eq_true.mp (List.all_eq_true.mp hnone name hname)

/-! ### Requirements that are made from attributes -/

/-- A requirement asks for attributes that are called by keys, and its directive says so. -/
structure AsksFor (r : Requirement) (attributes : Attributes) : Prop where
  /-- The filter is the one for the attributes. -/
  filter_eq : r.filter = .ofAttributes attributes
  /-- The directive holds the written form of the filter. -/
  recorded_eq : r.directives.get? Names.filter = some r.filter.text
  /-- The names of the attributes are keys. -/
  hasKeys : HasKeys attributes

/-- A requirement that is made of attributes with keys asks for them. -/
theorem asksFor_of_synthesizedRequirement {ns : String} {directives : Directives} {keep : Bool}
    (h : synthesizedRequirement ns directives attributes keep = .ok r)
    (hkeys : HasKeys attributes) : AsksFor r attributes := by
  obtain ⟨-, hdirectives, -, hfilter⟩ := Requirement.withFilter_eq_ok h
  refine ⟨hfilter, ?_, hkeys⟩
  rw [hdirectives, hfilter, Table.get?_insert, if_pos rfl]

/-- Attributes that are read one by one have the names that they have in the clause. -/
theorem isKey_of_typedAttributes {except : List String} {others : List (String × AttrValue)}
    (h : typedAttributes c except = .ok others) (hc : HasKeys c.attributes) :
    ∀ name ∈ others.map Prod.fst, isKey name = true := by
  intro name hname
  exact hc name (of_mem_map_fst_typedAttributes h hname).1

/-- The requirement for a bundle asks for some attributes. -/
theorem exists_asksFor_of_requiredBundle {ns : String} {range : VersionRange} {bundle : String}
    (h : requiredBundle ns c range bundle = .ok r) (hns : ns ∈ givenNames)
    (hc : HasKeys c.attributes) : ∃ attributes, AsksFor r attributes := by
  obtain ⟨others, hothers, h⟩ := bind_eq_ok_iff.mp h
  refine ⟨_, asksFor_of_synthesizedRequirement h ?_⟩
  -- The name and the version of the bundle come first, then what else the clause has.
  refine HasKeys.insertAll (hasKeys_ofList fun name hname => ?_)
    (isKey_of_typedAttributes hothers hc)
  refine isKey_of_mem_givenNames name ?_
  rcases List.mem_pair.mp hname with rfl | rfl
  · exact hns
  · show Names.bundleVersion ∈ givenNames
    decide

/-- An attribute of an import is asked for by its own name. -/
theorem fst_eq_of_importAttribute {name : String} {value : AttrValue} {e : String × AttrValue}
    (h : importAttribute name value = .ok e) : e.1 = name := by
  unfold importAttribute at h
  split at h
  · split at h
    · obtain ⟨range, -, rfl⟩ := map_eq_ok_iff.mp h
      rfl
    · obtain rfl := Except.ok.inj h
      rfl
  · obtain rfl := Except.ok.inj h
    rfl

/-- Reading the attributes of an import keeps their names. -/
theorem isKey_of_importAttributes {others others' : List (String × AttrValue)}
    (h : others.mapM (fun e => importAttribute e.1 e.2) = .ok others')
    (hothers : ∀ name ∈ others.map Prod.fst, isKey name = true) :
    ∀ name ∈ others'.map Prod.fst, isKey name = true := by
  intro name hname
  obtain ⟨e', he', rfl⟩ := List.mem_map.mp hname
  obtain ⟨e, he, hread⟩ := ((mapM_eq_ok h).2 e').mp he'
  rw [fst_eq_of_importAttribute hread]
  exact hothers e.1 (List.mem_map_of_mem he)

/-- The requirement for a package asks for some attributes. -/
theorem exists_asksFor_of_importedPackage {dynamic : Bool} {package : String}
    (h : importedPackage dynamic c package = .ok r) (hc : HasKeys c.attributes) :
    ∃ attributes, AsksFor r attributes := by
  unfold importedPackage at h
  simp only [bind_eq_ok_iff] at h
  obtain ⟨version?, -, version, hversion, others, hothers, others', hothers', h⟩ := h
  refine ⟨_, asksFor_of_synthesizedRequirement h (hasKeys_ofList ?_)⟩
  have hkeys := isKey_of_importAttributes hothers' (isKey_of_typedAttributes hothers hc)
  -- Besides the name of the package and the other attributes there is at most a version.
  have hfixed : (Names.package :: version.map Prod.fst) ⊆ givenNames := by
    cases version? with
    | none =>
      obtain rfl : [] = version := Except.ok.inj hversion
      decide
    | some text =>
      obtain ⟨range, -, rfl⟩ := map_eq_ok_iff.mp hversion
      show [Names.package, Names.version] ⊆ givenNames
      decide
  intro name hname
  rw [List.map_append, List.map_cons, List.mem_append] at hname
  exact hname.elim (isKey_of_mem_givenNames name <| hfixed ·) (hkeys name)

/-- Every requirement for an imported package asks for some attributes. -/
theorem exists_asksFor_of_readImports {dynamic : Bool} {rs : List Requirement}
    (h : readImports text dynamic = .ok rs) (hr : r ∈ rs) : ∃ attributes, AsksFor r attributes := by
  obtain ⟨cs, hcs, h⟩ := bind_eq_ok_iff.mp h
  obtain ⟨p, hp, himported⟩ := ((mapM_eq_ok (mapM_of_importPackages_eq_ok h)).2 r).mp hr
  obtain ⟨c, hc, hp⟩ := List.mem_flatMap.mp hp
  obtain ⟨package, -, rfl⟩ := List.mem_map.mp hp
  exact exists_asksFor_of_importedPackage himported (HasClause.hasKeys ⟨cs, hcs, hc⟩)

/-- Every requirement for a required bundle asks for some attributes. -/
theorem exists_asksFor_of_readRequiredBundles {rs : List Requirement}
    (h : readRequiredBundles text = .ok rs) (hr : r ∈ rs) : ∃ attributes, AsksFor r attributes := by
  obtain ⟨cs, hcs, h⟩ := bind_eq_ok_iff.mp h
  obtain ⟨lists, hlists, h⟩ := bind_eq_ok_iff.mp h
  obtain rfl := Except.ok.inj h
  obtain ⟨c, hc, rs, hread, hr⟩ := exists_of_mem_flatten hlists hr
  obtain ⟨range, -, hpaths⟩ := bind_eq_ok_iff.mp hread
  obtain ⟨bundle, -, hrequired⟩ := ((mapM_eq_ok hpaths).2 r).mp hr
  exact exists_asksFor_of_requiredBundle hrequired (by decide) (HasClause.hasKeys ⟨cs, hcs, hc⟩)

/-- The requirement for a host asks for some attributes. -/
theorem exists_asksFor_of_readFragmentHost (h : readFragmentHost text = .ok r) :
    ∃ attributes, AsksFor r attributes := by
  unfold readFragmentHost at h
  simp only [bind_eq_ok_iff] at h
  obtain ⟨cs, hcs, ⟨c, host⟩, hsingle, range, -, hrequired⟩ := h
  obtain ⟨rfl, -⟩ := eq_of_singlePath hsingle
  exact exists_asksFor_of_requiredBundle hrequired (by decide)
    (hasKeys_of_mem_read hcs (List.mem_singleton_self c))

/-- Every requirement for an imported service asks for some attributes. -/
theorem exists_asksFor_of_readImportedServices {rs : List Requirement}
    (h : readImportedServices text = .ok rs) (hr : r ∈ rs) :
    ∃ attributes, AsksFor r attributes := by
  obtain ⟨cs, hcs, h⟩ := bind_eq_ok_iff.mp h
  obtain ⟨c, hc, service, -, hread⟩ := ((forEachPath_eq_ok h).2 r).mp hr
  obtain ⟨attributes, hattributes, h⟩ := bind_eq_ok_iff.mp hread
  obtain ⟨others, hothers, h'⟩ := bind_eq_ok_iff.mp hattributes
  obtain rfl := Except.ok.inj h'
  refine ⟨_, asksFor_of_synthesizedRequirement h ((hasKeys_ofList ?_).insertAll ?_)⟩
  · exact List.forall_mem_singleton.mpr (isKey_of_mem_givenNames Names.objectClass (by decide))
  · exact isKey_of_typedAttributes hothers (HasClause.hasKeys ⟨cs, hcs, hc⟩)

/-! ### Requirements whose recorded texts are read -/

/-- The filter of a generic requirement is read from its directive. -/
theorem parse_of_readRequirements {rs : List Requirement} (h : readRequirements text = .ok rs)
    (hr : r ∈ rs) {recorded : String} (hrecorded : r.directives.get? Names.filter = some recorded) :
    Filter.parse recorded = .ok r.filter := by
  obtain ⟨cs, hcs, h⟩ := bind_eq_ok_iff.mp h
  obtain ⟨lists, hlists, h⟩ := bind_eq_ok_iff.mp h
  obtain rfl := Except.ok.inj h
  obtain ⟨c, hc, rs, hread, hr⟩ := exists_of_mem_flatten hlists hr
  obtain ⟨filter, hfilter, hpaths⟩ := bind_eq_ok_iff.mp hread
  obtain ⟨ns, -, hmade⟩ := ((mapM_eq_ok hpaths).2 r).mp hr
  simp only [bind_eq_ok_iff] at hmade
  obtain ⟨_, -, attributes, -, hmade⟩ := hmade
  obtain ⟨-, hdirectives, -, rfl⟩ := Requirement.withFilter_eq_ok hmade
  -- The recorded filter is the directive that the filter was read from.
  rw [← hdirectives, hrecorded] at hfilter
  exact mapError_eq_ok_iff.mp hfilter

/-- The filter for an environment can be written. -/
theorem wellFormed_of_environment_filter {e : Environment} {f : Filter} (h : e.filter = .ok f) :
    f.WellFormed := by
  -- Every condition is an equality with one of the given names.
  have hequal {name : String} (hname : name ∈ givenNames) (operand : String) :
      (Filter.eq name operand).WellFormed :=
    .comparison _ _ (properName_of_mem_givenNames hname)
  unfold Environment.filter at h
  simp only at h
  split at h
  · obtain rfl := Except.ok.inj h
    exact hequal (by decide) _
  · obtain ⟨v, -, rfl⟩ := map_eq_ok_iff.mp h
    refine .and (List.cons_ne_nil _ _) fun f hf => ?_
    rcases List.mem_pair.mp hf with rfl | rfl
    · exact hequal (by decide) _
    · exact hequal (by decide) _

/-- A disjunction can be written if its filters can, also if it is a single filter. -/
theorem wellFormed_of_disjunction? {fs : List Filter} {f : Filter} (h : disjunction? fs = some f)
    (hfs : ∀ g ∈ fs, g.WellFormed) : f.WellFormed := by
  unfold disjunction? at h
  split at h
  · cases h
  · obtain rfl := Option.some.inj h
    exact hfs _ (List.mem_singleton_self _)
  -- A disjunction is made of two conditions or more, so it is not empty.
  next hne _ =>
    obtain rfl := Option.some.inj h
    exact .or hne hfs

/-- The filter for execution environments is read from its written form. -/
theorem parse_of_readEnvironments {rs : List Requirement} (h : readEnvironments text = .ok rs)
    (hr : r ∈ rs) {recorded : String} (hrecorded : r.directives.get? Names.filter = some recorded) :
    Filter.parse recorded = .ok r.filter := by
  obtain ⟨fs, hfs, hrs⟩ := readEnvironments_eq_ok h
  obtain ⟨f, hf, hmade⟩ := exists_of_mem_of_forall₂ hrs hr
  rw [hmade.directives_eq] at hrecorded
  obtain rfl : f.text = recorded := Option.some.inj hrecorded
  rw [hmade.filter_eq]
  refine Filter.parse_text_iff_wellFormed.mpr ?_
  refine wellFormed_of_disjunction? (Option.mem_toList.mp hf) fun g hg => ?_
  obtain ⟨e, -, he⟩ := exists_of_mem_of_forall₂ hfs hg
  exact wellFormed_of_environment_filter he

/-! ### The requirements of a resource -/

variable {m : Manifest} {config : Config} {uri : Option String} {b : Resource} {recorded : String}

/-- A requirement of a resource asks for attributes that are called by keys, or has a filter that is
read from its directive. -/
theorem recorded_of_mem_requirements (hb : m.resource config uri = .ok b)
    (hr : r ∈ b.requirements) : (∃ attributes, AsksFor r attributes) ∨
      ∀ recorded, r.directives.get? Names.filter = some recorded →
        Filter.parse recorded = .ok r.filter := by
  obtain ⟨s, hs⟩ := exists_readFrom_of_resource hb
  simp only [hs.requirements_eq, List.mem_append] at hr
  -- Only generic requirements and environments record a filter that no attributes imply.
  rcases hr with (((((hr | hr) | hr) | hr) | hr) | hr) | hr
  · obtain ⟨text, -, hread⟩ := exists_of_mem_of_forall₂ hs.hosts_eq hr
    exact .inl (exists_asksFor_of_readFragmentHost hread)
  · exact .inl (exists_asksFor_of_readImports hs.imports_eq hr)
  · exact .inl (exists_asksFor_of_readRequiredBundles hs.required_eq hr)
  · exact .inr fun recorded => parse_of_readRequirements hs.genericRequirements_eq hr
  · exact .inl (exists_asksFor_of_readImports hs.dynamicImports_eq hr)
  · exact .inr fun recorded => parse_of_readEnvironments hs.environments_eq hr
  · exact .inl (exists_asksFor_of_readImportedServices hs.importedServices_eq hr)

/-- The filter that a requirement of a resource records is read from the record exactly if no
attribute that it names has a reserved character in its name. Otherwise the record is the written
form of the filter. -/
theorem parse_recorded_iff (hb : m.resource config uri = .ok b) (hr : r ∈ b.requirements)
    (hrecorded : r.directives.get? Names.filter = some recorded) :
    (Filter.parse recorded = .ok r.filter ↔
      ∀ name ∈ r.filter.names, ∀ c ∈ name.toList, c ∉ Filter.reserved) ∧
    (Filter.parse recorded = .ok r.filter ∨ recorded = r.filter.text) := by
  rcases recorded_of_mem_requirements hb hr with ⟨attributes, hasks⟩ | hread
  · -- The record is the written form, whose names are keys.
    obtain rfl := Option.some.inj (hasks.recorded_eq.symm.trans hrecorded)
    refine ⟨?_, .inr rfl⟩
    rw [hasks.filter_eq]
    exact Filter.parse_text_ofAttributes_iff_of_hasKeys hasks.hasKeys
  · have hparse := hread recorded hrecorded
    refine ⟨iff_of_true hparse fun name hname c hc hreserved => ?_, .inl hparse⟩
    -- What is read has proper names.
    have hproper := (Filter.parse_eq_ok_iff_isFilter.mp hparse).wellFormed.properName hname
    exact hproper.notMem_nameEnds c hc (List.mem_cons_of_mem _ hreserved)

/-- A bundle that imports packages and does nothing else. -/
def importing (imports : String) : Manifest where
  headers := .ofList [(Names.manifestVersionHeader, "2"), (Names.symbolicNameHeader, "user"),
    (Names.importPackageHeader, imports)]

/-- The requirement of a bundle that imports one package. -/
theorem exists_requirement_importing (imports : String) (p : Requirement → Bool)
    (h : ((importing imports).resource {} none).toOption.any (·.requirements.any p) = true) :
    ∃ b, (importing imports).resource {} none = .ok b ∧ ∃ r ∈ b.requirements, p r = true := by
  obtain ⟨b, hb, hany⟩ := exists_of_any_toOption _ h
  exact ⟨b, hb, List.any_eq_true.mp hany⟩

/-- An import with an attribute and a range of versions has a record that is read as its filter. -/
theorem exists_parse_recorded_importing : ∃ b,
    (importing "acme.core;version=\"[1,2)\";a=1").resource {} none = .ok b ∧
      ∃ r ∈ b.requirements, ∃ recorded, r.directives.get? Names.filter = some recorded ∧
        Filter.parse recorded = .ok r.filter := by
  obtain ⟨b, hb, r, hr, hfacts⟩ := exists_requirement_importing
    "acme.core;version=\"[1,2)\";a=1" (fun r => (r.directives.get? Names.filter).isSome &&
      r.filter.names.all fun name => name.toList.all fun c => !Filter.reserved.contains c)
    (by decide +kernel)
  simp only [Bool.and_eq_true, List.all_eq_true, Bool.not_eq_true', List.contains_eq_mem,
    decide_eq_false_iff_not] at hfacts
  obtain ⟨recorded, hrecorded⟩ := Option.isSome_iff_exists.mp hfacts.1
  exact ⟨b, hb, r, hr, recorded, hrecorded, (parse_recorded_iff hb hr hrecorded).1.mpr hfacts.2⟩

/-- An import can have a record that is not read as its filter. -/
theorem not_forall_parse_recorded : ¬ ∀ (m : Manifest) (config : Config) (uri : Option String)
    (b : Resource) (r : Requirement) (recorded : String), m.resource config uri = .ok b →
      r ∈ b.requirements → r.directives.get? Names.filter = some recorded →
        Filter.parse recorded = .ok r.filter := by
  intro h
  obtain ⟨b, hb, r, hr, hfacts⟩ := exists_requirement_importing "p;a(b=1" (fun r =>
    (r.directives.get? Names.filter).isSome && r.filter.names.contains "a(b") (by decide +kernel)
  simp only [Bool.and_eq_true, List.contains_iff_mem] at hfacts
  obtain ⟨recorded, hrecorded⟩ := Option.isSome_iff_exists.mp hfacts.1
  have hparse := h _ _ _ b r recorded hb hr hrecorded
  -- The name of the attribute would have to be proper, but holds a parenthesis.
  have hproper := (Filter.parse_eq_ok_iff_isFilter.mp hparse).wellFormed.properName hfacts.2
  exact hproper.notMem_nameEnds '(' (by decide) (by decide)

end Manifest

end BundleWiring
