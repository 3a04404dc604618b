import BundleWiring.Proofs.Manifest.Parts

/-!
# Hosts and their Bundles

The host that fragments attach to is the bundle under another name: its attributes are renamed in
order and checked again. Two things on a symbolic name get in the way. An attribute that is already
called like the namespace of hosts comes after the renamed one and replaces it, and a directive may
mention the old name or be called like the new one, which only the second check refuses. This module
proves:

- `Table.get?_ofList_rename`: what a table holds when its first entry gets another name;
- `Capability.exists_ofParts_iff`: when parts make a capability;
- `exists_hostCapability_iff`: when a bundle has a host;
- `standsFor_of_hostCapability`: what the host says;
- `hostCapability_standsFor`: both for the bundle of a manifest, whose resource has the host.
-/

namespace BundleWiring

open Text

/-! ### Tables that start with an entry -/

namespace Table

variable {α : Type} {t : Table α} {entries : List (String × α)}

/-- A name that no entry has is not found. -/
theorem lookup_eq_none_of_notMem {name : String} (h : name ∉ entries.map Prod.fst) :
    entries.lookup name = none := by
  rw [← Option.isNone_iff_eq_none, ← Option.isSome_eq_false_iff, isSome_lookup]
  simpa using h

/-- Of entries with distinct names, each gives its name its value. -/
theorem get?_insertAll (t : Table α) (h : (entries.map Prod.fst).Nodup) (name : String) :
    (t.insertAll entries).get? name = (entries.lookup name).or (t.get? name) := by
  induction entries generalizing t with
  | nil => rfl
  | cons e entries ih =>
    rw [List.map_cons, List.nodup_cons] at h
    rw [insertAll_cons, ih _ h.2, get?_insert, List.lookup_cons]
    by_cases hname : name = e.1
    · -- No later entry has the name of the first one.
      rw [hname, lookup_eq_none_of_notMem h.1, if_pos rfl, beq_self_eq_true]
      rfl
    · rw [if_neg hname, beq_eq_false_iff_ne.mpr hname]

/-- When the first entry of a table gets another name, an entry that has this name already comes
later and takes its place. -/
theorem get?_ofList_rename {old new : String} {value : α} {rest : List (String × α)}
    (ht : t.entries = (old, value) :: rest) (hne : old ≠ new) (name : String) :
    (ofList (t.entries.map fun e => (if e.1 = old then new else e.1, e.2))).get? name =
      if name = old then none
      else (t.get? name).or (if name = new then some value else none) := by
  have hnodup : (old :: rest.map Prod.fst).Nodup := by
    have h := t.nodup
    rwa [ht] at h
  obtain ⟨hold, hrest⟩ := List.nodup_cons.mp hnodup
  -- No other entry is renamed, because none has the name of the first one.
  have hrenamed : (t.entries.map fun e => (if e.1 = old then new else e.1, e.2)) =
      (new, value) :: rest := by
    have hsame : rest.map (fun e => (if e.1 = old then new else e.1, e.2)) = rest.map id := by
      refine List.map_congr_left fun e he => ?_
      have hother : e.1 ≠ old := fun heq => hold (heq ▸ List.mem_map_of_mem he)
      rw [if_neg hother]
      rfl
    rw [ht, List.map_cons, hsame, List.map_id, if_pos rfl]
  rw [hrenamed, ofList, insertAll_cons, get?_insertAll _ hrest, get?_insert, get?_empty]
  by_cases hname : name = old
  · rw [if_pos hname, hname, lookup_eq_none_of_notMem hold, if_neg hne]
    rfl
  · rw [if_neg hname, get?, ht, List.lookup_cons, beq_eq_false_iff_ne.mpr hname]

end Table

/-! ### Parts that make a capability -/

/-- Directives and attributes make a clause exactly if they have no name in common. -/
theorem Clause.exists_ofParts_iff {ns : String} {directives : Directives}
    {attributes : Attributes} (hns : trim ns.toList ≠ []) :
    (∃ c, Clause.ofParts ns directives attributes = .ok c) ↔
      ∀ name ∈ directives.names, attributes.contains name = false := by
  unfold Clause.ofParts
  rw [dif_neg hns]
  split
  next name h =>
    refine iff_of_false (by simp) fun hall => ?_
    have hname := hall name (List.mem_of_find?_eq_some h)
    simp [List.find?_some h] at hname
  next h =>
    refine iff_of_true ⟨_, rfl⟩ fun name hname => ?_
    simpa using List.find?_eq_none.mp h name hname

/-- Parts make a capability if no directive is called like an attribute and the mandatory attributes
are there. -/
theorem Capability.exists_ofParts_iff {ns : String} {directives : Directives}
    {attributes : Attributes} (hns : trim ns.toList ≠ []) :
    (∃ c, Capability.ofParts ns directives attributes = .ok c) ↔
      (∀ name ∈ directives.names, attributes.contains name = false) ∧
        ∀ name ∈ mandatoryNames directives, attributes.contains name = true := by
  rw [← Clause.exists_ofParts_iff hns]
  constructor
  · rintro ⟨c, hc⟩
    obtain ⟨-, hdirectives, hattributes⟩ := Capability.ofParts_eq_ok hc
    obtain ⟨clause, hclause, -⟩ := bind_eq_ok_iff.mp hc
    refine ⟨⟨clause, hclause⟩, ?_⟩
    rw [← hdirectives, ← hattributes]
    exact c.mandatory_held
  · rintro ⟨⟨clause, hclause⟩, hmandatory⟩
    obtain ⟨-, hdirectives, hattributes⟩ := Clause.ofParts_eq_ok hclause
    rw [← hdirectives, ← hattributes] at hmandatory
    rw [Capability.ofParts, hclause]
    show ∃ c, Capability.ofClause clause = .ok c
    unfold Capability.ofClause
    split
    -- What would be missing is one of the attributes that are there.
    next name h =>
      have hmissing := List.find?_some h
      simp [hmandatory name (List.mem_of_find?_eq_some h)] at hmissing
    next => exact ⟨_, rfl⟩

namespace Manifest

/-! ### Bundles and hosts -/

/-- A manifest describes a bundle of some name. -/
def Describes (m : Manifest) (name : String) (bundle : Capability) : Prop :=
  ∃ version text,
    (m.header? Names.versionHeader).elim (.ok .zero) Version.read = .ok version ∧
      m.header? Names.symbolicNameHeader = some text ∧
        readSymbolicName text version = .ok (name, bundle)

/-- A host stands for a bundle of some name: it says the same, with the name of the bundle under the
namespace of hosts unless the bundle has an attribute that is called so. -/
structure StandsFor (host bundle : Capability) (name : String) : Prop where
  /-- The host is in the namespace of hosts. -/
  ns_eq : host.ns = Names.host
  /-- The host has the directives of the bundle. -/
  directives_eq : host.directives = bundle.directives
  /-- The host has the name of the bundle, or the attribute of the bundle that replaces it. -/
  get?_host : host.attributes.get? Names.host =
    some ((bundle.attributes.get? Names.host).getD (.str name))
  /-- The host is not required as a bundle. -/
  get?_bundle : host.attributes.get? Names.bundle = none
  /-- Otherwise the host has the attributes of the bundle. -/
  get?_of_ne : ∀ other, other ≠ Names.host → other ≠ Names.bundle →
    host.attributes.get? other = bundle.attributes.get? other

variable {text name : String} {version : Version} {bundle host : Capability}

/-- The name of a bundle is its first attribute. -/
theorem exists_entries_of_readSymbolicName
    (h : readSymbolicName text version = .ok (name, bundle)) :
    ∃ rest, bundle.attributes.entries = (Names.bundle, .str name) :: rest := by
  obtain ⟨c, -, -, hbundle⟩ := isBundle_of_readSymbolicName h
  obtain ⟨others, -, hentries⟩ := hbundle.entries_eq
  exact ⟨(Names.bundleVersion, .version version) :: others, hentries⟩

/-- The attributes of a bundle as those of a host. -/
theorem get?_renamed (h : readSymbolicName text version = .ok (name, bundle)) (other : String) :
    (Table.ofList (bundle.attributes.entries.map fun (name, value) =>
      (if name = Names.bundle then Names.host else name, value))).get? other =
        if other = Names.bundle then none
        else (bundle.attributes.get? other).or
          (if other = Names.host then some (.str name) else none) := by
  obtain ⟨rest, hrest⟩ := exists_entries_of_readSymbolicName h
  exact Table.get?_ofList_rename hrest (by decide) other

/-- The attributes of a host are called as those of the bundle, but for the name. -/
theorem contains_renamed_iff (h : readSymbolicName text version = .ok (name, bundle))
    (other : String) :
    (Table.ofList (bundle.attributes.entries.map fun (name, value) =>
      (if name = Names.bundle then Names.host else name, value))).contains other = true ↔
        other ≠ Names.bundle ∧ (bundle.attributes.contains other = true ∨ other = Names.host) := by
  rw [← Table.isSome_get?, get?_renamed h, ← Table.isSome_get?]
  by_cases hbundle : other = Names.bundle
  · simp [hbundle]
  · by_cases hhost : other = Names.host <;> simp [hbundle, hhost]

/-- A bundle has a host unless it makes its name mandatory, which is no attribute of a host, or has
a directive that is called as the name of a host. -/
theorem exists_hostCapability_iff (h : readSymbolicName text version = .ok (name, bundle)) :
    (∃ host, hostCapability bundle = .ok host) ↔
      Names.bundle ∉ mandatoryNames bundle.directives ∧
        Names.host ∉ bundle.directives.names := by
  rw [hostCapability, Capability.exists_ofParts_iff (by decide)]
  simp only [← Bool.not_eq_true, contains_renamed_iff h]
  constructor
  · rintro ⟨hdirectives, hmandatory⟩
    refine ⟨fun hmem => ?_, fun hmem => ?_⟩
    · exact (hmandatory Names.bundle hmem).1 rfl
    · exact hdirectives Names.host hmem ⟨by decide, .inr rfl⟩
  -- The bundle is a capability, so its directives and mandatory names fit its own attributes.
  · rintro ⟨hmandatory, hdirective⟩
    refine ⟨?_, fun other hother => ⟨?_, ?_⟩⟩
    · rintro other hother ⟨-, hheld | rfl⟩
      · exact Bool.false_ne_true ((bundle.clause.disjoint other hother).symm.trans hheld)
      · exact hdirective hother
    · exact fun heq => hmandatory (heq ▸ hother)
    · exact .inl (bundle.mandatory_held other hother)

/-- What a host says is what the bundle says. -/
theorem standsFor_of_hostCapability (h : readSymbolicName text version = .ok (name, bundle))
    (hhost : hostCapability bundle = .ok host) : StandsFor host bundle name := by
  obtain ⟨hns, hdirectives, hattributes⟩ := Capability.ofParts_eq_ok hhost
  have hget (other : String) : host.attributes.get? other = _ :=
    (congrArg (Table.get? · other) hattributes).trans (get?_renamed h other)
  refine ⟨hns, hdirectives, ?_, ?_, fun other hother hbundle => ?_⟩
  · rw [hget, if_neg (by decide), if_pos rfl]
    cases bundle.attributes.get? Names.host <;> rfl
  · rw [hget, if_pos rfl]
  · rw [hget, if_neg hbundle, if_neg hother, Option.or_none]

/-- A resource that is no fragment and may be attached to has a host. -/
theorem exists_host_of_resource {m : Manifest} {config : Config} {uri : Option String}
    {b : Resource} (hm : m.Describes name bundle) (hb : m.resource config uri = .ok b) :
    b.name = name ∧ (m.header? Names.fragmentHostHeader = none → isAttachable bundle = true →
      ∃ host ∈ b.provided, hostCapability bundle = .ok host) := by
  obtain ⟨version, text, hversion, htext, hread⟩ := hm
  obtain ⟨s, hs⟩ := exists_readFrom_of_resource hb
  -- The version and the bundle are read from the same headers.
  obtain rfl := Except.ok.inj (hversion.symm.trans hs.version_eq)
  obtain ⟨text', htext', hread'⟩ := hs.bundle_eq
  obtain rfl := Option.some.inj (htext.symm.trans htext')
  obtain ⟨hname, rfl⟩ := Prod.mk.inj (Except.ok.inj (hread.symm.trans hread'))
  refine ⟨hname.symm, fun hnone hattach => ?_⟩
  have hhosts := hs.hosts_eq
  rw [hnone] at hhosts
  -- A bundle that may be attached to is followed by its host.
  have hbundles := hs.bundles_eq
  rw [List.forall₂_nil_left_iff.mp hhosts, bundleCapabilities, if_neg (by decide),
    if_pos hattach] at hbundles
  obtain ⟨host, hhost, hpair⟩ := map_eq_ok_iff.mp hbundles
  exact ⟨host, by simp [hs.provided_eq, ← hpair], hhost⟩

/-- A bundle has a host unless it makes its name mandatory or has a directive that is called as the
name of a host. The host says what the bundle says, with the name of the bundle under the namespace
of hosts unless the bundle has an attribute that is called so. And a manifest that describes a
bundle which is no fragment and may be attached to makes a resource only with the host. -/
theorem hostCapability_standsFor {m : Manifest} (hm : m.Describes name bundle) :
    ((∃ host, hostCapability bundle = .ok host) ↔
      Names.bundle ∉ mandatoryNames bundle.directives ∧
        Names.host ∉ bundle.directives.names) ∧
    (∀ host, hostCapability bundle = .ok host → StandsFor host bundle name) ∧
    ∀ config uri b, m.resource config uri = .ok b → b.name = name ∧
      (m.header? Names.fragmentHostHeader = none → isAttachable bundle = true →
        ∃ host ∈ b.provided, hostCapability bundle = .ok host) := by
  obtain ⟨version, text, hversion, htext, hread⟩ := id hm
  refine ⟨exists_hostCapability_iff hread, fun host hhost => ?_, fun config uri b hb => ?_⟩
  · exact standsFor_of_hostCapability hread hhost
  · exact exists_host_of_resource hm hb

/-- A bundle with a symbolic name and nothing else. -/
def named (symbolicName : String) : Manifest where
  headers := .ofList [(Names.manifestVersionHeader, "2"), (Names.symbolicNameHeader, symbolicName)]

/-- The bundle that a symbolic name gives. -/
theorem exists_describes_named (symbolicName : String) (p : String × Capability → Bool)
    (htext : (named symbolicName).header? Names.symbolicNameHeader = some symbolicName)
    (h : (readSymbolicName symbolicName .zero).toOption.any p = true) :
    ∃ name bundle, (named symbolicName).Describes name bundle ∧ p (name, bundle) = true := by
  obtain ⟨⟨name, bundle⟩, hread, hp⟩ := exists_of_any_toOption _ h
  exact ⟨name, bundle, ⟨.zero, symbolicName, rfl, htext, hread⟩, hp⟩

/-- A bundle with a mandatory attribute and a directive has a host of its name, with both. -/
theorem exists_host_named : ∃ b, (named "acme;x=1;mandatory:=x").resource {} none = .ok b ∧
    ∃ host ∈ b.provided, host.ns = Names.host ∧
      host.attributes.get? Names.host = some (.str b.name) ∧ "x" ∈ mandatoryNames host.directives := by
  obtain ⟨b, hb, -⟩ := exists_of_any_toOption
    (x := (named "acme;x=1;mandatory:=x").resource {} none) (fun _ => true) (by decide +kernel)
  obtain ⟨name, bundle, hdescribes, hfacts⟩ := exists_describes_named "acme;x=1;mandatory:=x"
    (fun p => isAttachable p.2 && (p.2.attributes.get? Names.host).isNone &&
      (mandatoryNames p.2.directives).contains "x") (by decide +kernel) (by decide +kernel)
  simp only [Bool.and_eq_true, Option.isNone_iff_eq_none, List.contains_iff_mem] at hfacts
  obtain ⟨⟨hattach, hnone⟩, hmandatory⟩ := hfacts
  obtain ⟨-, hstands, hresource⟩ := hostCapability_standsFor hdescribes
  obtain ⟨rfl, hprovided⟩ := hresource {} none b hb
  obtain ⟨host, hmem, hhost⟩ := hprovided (by decide +kernel) hattach
  obtain ⟨hns, hdirectives, hname, -, -⟩ := hstands host hhost
  rw [hnone] at hname
  exact ⟨b, hb, host, hmem, hns, hname, hdirectives ▸ hmandatory⟩

/-- A bundle can have a host of another name than its own. -/
theorem not_forall_host_name_eq : ¬ ∀ (m : Manifest) (name : String) (bundle : Capability),
    m.Describes name bundle → m.header? Names.fragmentHostHeader = none →
      isAttachable bundle = true → ∃ host, hostCapability bundle = .ok host ∧
        host.attributes.get? Names.host = some (.str name) := by
  intro h
  obtain ⟨name, bundle, hdescribes, hfacts⟩ := exists_describes_named "acme;osgi.wiring.host=other"
    (fun p => p.1 == "acme" && isAttachable p.2 &&
      (p.2.attributes.get? Names.host).any (·.asText? == some "other"))
    (by decide +kernel) (by decide +kernel)
  simp only [Bool.and_eq_true, beq_iff_eq] at hfacts
  obtain ⟨⟨rfl, hattach⟩, hother⟩ := hfacts
  obtain ⟨host, hhost, hname⟩ := h _ "acme" bundle hdescribes (by decide +kernel) hattach
  obtain ⟨version, text, -, -, hread⟩ := hdescribes
  -- The attribute that is written down comes after the name and replaces it.
  rw [(standsFor_of_hostCapability hread hhost).get?_host] at hname
  cases hvalue : bundle.attributes.get? Names.host with
  | none =>
    rw [hvalue] at hother
    cases hother
  | some value =>
    rw [hvalue, Option.getD_some] at hname
    obtain rfl : value = .str "acme" := Option.some.inj hname
    rw [hvalue] at hother
    exact absurd hother (by decide)

end Manifest

end BundleWiring
