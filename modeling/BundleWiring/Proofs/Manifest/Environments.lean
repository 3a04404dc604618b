import BundleWiring.Proofs.Filter.OfAttributes
import BundleWiring.Proofs.Manifest.Contents
import BundleWiring.Proofs.Manifest.RecordedFilter

/-!
# What Execution Environments Require

A list of execution environments is met by any of them. An entry of the list names an environment,
with the text of a version behind the last dash. The slash, the dashes and all other characters of a
name mean nothing to the filter that asks for it, which compares the whole name. This module proves:

- `Environment.ofPart_iff` and `Environment.ofEntry_iff`: which environment an entry stands for;
- `Environment.accepts_filter_iff`: the name and the versions that an environment allows;
- `Environment.fails_filter_iff` and `fails_readEnvironments_iff`: the lists that cannot be read;
- `readEnvironments_disjunction`: what a list of environments requires.
-/

namespace BundleWiring.Manifest

open Text

namespace Environment

variable {s entry left right name version : List Char} {e l r : Environment}

/-! ### Entries -/

/-- What a part of an entry gives: a version stands behind the last dash. -/
inductive OfPart : List Char → Environment → Prop where
  /-- A part without a dash is a name. -/
  | unversioned {name : List Char} : '-' ∉ name → OfPart name ⟨name, none⟩
  /-- The last dash is followed by the text of a version. -/
  | versioned {name version : List Char} :
    '-' ∉ version → OfPart (name ++ '-' :: version) ⟨name, some version⟩

/-- What an entry stands for. -/
inductive OfEntry : List Char → Environment → Prop where
  /-- An entry without a slash has one part. -/
  | single {entry : List Char} {e : Environment} : '/' ∉ entry → OfPart entry e → OfEntry entry e
  /-- The first slash separates two parts, which do not carry different versions. -/
  | pair {left right : List Char} {l r : Environment} : '/' ∉ left → OfPart (trim left) l →
    OfPart (trim right) r → (∀ v ∈ l.version, ∀ w ∈ r.version, v = w) →
    OfEntry (left ++ '/' :: right) ⟨l.name ++ '/' :: r.name, l.version <|> r.version⟩

/-- A part without a dash is a name without a version. -/
theorem splitVersion_of_notMem (h : '-' ∉ s) : splitVersion s = ⟨s, none⟩ := by
  rw [splitVersion, span_bne_of_notMem (mt List.mem_reverse.mp h)]

/-- A part is cut at its last dash. -/
theorem splitVersion_append (h : '-' ∉ version) :
    splitVersion (name ++ '-' :: version) = ⟨name, some version⟩ := by
  have hreverse : (name ++ '-' :: version).reverse = version.reverse ++ '-' :: name.reverse := by
    simp
  -- The last dash is the first one from behind.
  rw [splitVersion, hreverse, span_bne_append_cons (mt List.mem_reverse.mp h)]
  simp only [List.reverse_reverse]

/-- A part gives what the reader makes of it. -/
theorem ofPart_iff : OfPart s e ↔ splitVersion s = e := by
  constructor
  · rintro (h | h)
    · exact splitVersion_of_notMem h
    · exact splitVersion_append h
  · rintro rfl
    by_cases hdash : '-' ∈ s
    -- What is behind the last dash holds no other one.
    · obtain ⟨version, name, hsplit, hnone⟩ :=
        List.eq_append_cons_of_mem (List.mem_reverse.mpr hdash)
      obtain rfl : s = name.reverse ++ '-' :: version.reverse := by
        rw [← List.reverse_reverse s, hsplit]
        simp
      have hversion : '-' ∉ version.reverse := mt List.mem_reverse.mp hnone
      rw [splitVersion_append hversion]
      exact .versioned hversion
    · rw [splitVersion_of_notMem hdash]
      exact .unversioned hdash

/-- Two parts are joined exactly if they do not have different versions. -/
theorem join?_eq_some_iff : l.join? r = some e ↔ (∀ v ∈ l.version, ∀ w ∈ r.version, v = w) ∧
    e = ⟨l.name ++ '/' :: r.name, l.version <|> r.version⟩ := by
  unfold join?
  cases l.version <;> cases r.version <;> simp [eq_comm]

/-- An entry without a slash is one part. -/
theorem ofEntry?_of_notMem (h : '/' ∉ entry) : ofEntry? entry = some (splitVersion entry) := by
  unfold ofEntry?
  rw [span_bne_of_notMem h]

/-- An entry is cut at its first slash. -/
theorem ofEntry?_append (h : '/' ∉ left) : ofEntry? (left ++ '/' :: right) =
    (splitVersion (trim left)).join? (splitVersion (trim right)) := by
  unfold ofEntry?
  rw [span_bne_append_cons h]

/-- An entry stands for what the reader makes of it. -/
theorem ofEntry_iff : OfEntry entry e ↔ ofEntry? entry = some e := by
  constructor
  · rintro (⟨hslash, he⟩ | ⟨hslash, hl, hr, hsame⟩)
    · rw [ofEntry?_of_notMem hslash, ofPart_iff.mp he]
    · rw [ofEntry?_append hslash, ofPart_iff.mp hl, ofPart_iff.mp hr]
      exact join?_eq_some_iff.mpr ⟨hsame, rfl⟩
  · intro h
    by_cases hslash : '/' ∈ entry
    · obtain ⟨left, right, rfl, hleft⟩ := List.eq_append_cons_of_mem hslash
      rw [ofEntry?_append hleft] at h
      obtain ⟨hsame, rfl⟩ := join?_eq_some_iff.mp h
      exact .pair hleft (ofPart_iff.mpr rfl) (ofPart_iff.mpr rfl) hsame
    · rw [ofEntry?_of_notMem hslash] at h
      exact .single hslash (ofPart_iff.mpr (Option.some.inj h))

/-! ### Conditions -/

/-- An environment allows a name and a version: the name is its own, and the version, if it carries
one, is the one that it carries. -/
structure Allows (e : Environment) (name : String) (v : Version) : Prop where
  /-- The name is the one that capabilities have. -/
  name_eq : e.currentName = name
  /-- The text of the version denotes the version. -/
  version_eq : ∀ text ∈ e.version, Version.parse? (String.ofList text) = some v

/-- An environment with the text of a version allows this version only. -/
theorem allows_iff_of_version_eq {text : List Char} {name : String} {v w : Version}
    (htext : e.version = some text) (hw : Version.parse? (String.ofList text) = some w) :
    e.Allows name v ↔ e.currentName = name ∧ w = v := by
  constructor
  · exact fun h => ⟨h.name_eq, Option.some.inj (hw.symm.trans (h.version_eq text htext))⟩
  · rintro ⟨hname, rfl⟩
    exact ⟨hname, by simpa [htext] using hw⟩

/-- The condition that an environment gives holds of the names and versions that it allows. -/
theorem accepts_filter_iff {f : Filter} {m : Attributes} {name : String} {v : Version}
    (h : e.filter = .ok f) (hname : m.get? Names.environment = some (.str name))
    (hversion : m.get? Names.version = some (.version v)) :
    f.accepts m = true ↔ e.Allows name v := by
  -- Both comparisons are with all of a text, so nothing in it has a meaning.
  have hnamed : (Filter.eq Names.environment e.currentName).accepts m = true ↔
      e.currentName = name := Filter.accepts_eq_iff hname
  unfold filter at h
  simp only at h
  split at h
  next hnone =>
    obtain rfl := Except.ok.inj h
    rw [hnamed]
    exact ⟨fun h => ⟨h, by simp [hnone]⟩, Allows.name_eq⟩
  next text hsome =>
    obtain ⟨w, hw, rfl⟩ := map_eq_ok_iff.mp h
    replace hw : Version.parse? (String.ofList text) = some w := elim_eq_ok_iff.mp hw
    have hequal : (Filter.eq Names.version w.text).accepts m = true ↔ w = v := by
      rw [Filter.eq, Filter.accepts_comparison_version hversion, Comparison.holds,
        Ordering.isEq_iff_eq_eq, Std.LawfulEqOrd.compare_eq_iff_eq, eq_comm]
    rw [Filter.accepts, Filter.acceptsAll_eq_all, List.all_cons, List.all_cons, List.all_nil,
      Bool.and_true, Bool.and_eq_true, hnamed, hequal, allows_iff_of_version_eq hsome hw]

/-- An environment gives no filter exactly if its version is malformed. -/
theorem fails_filter_iff :
    Fails e.filter ↔ ∃ text ∈ e.version, Version.parse? (String.ofList text) = none := by
  unfold filter
  cases e.version with
  | none => exact iff_of_false (not_fails_ok _) (by simp)
  | some text =>
    rw [fails_map_iff, Version.read, fails_elim_iff]
    simp

end Environment

/-! ### Lists -/

variable {text : String} {rs : List Requirement}

/-- A list names an environment: one of its entries stands for it. -/
def Lists (text : String) (e : Environment) : Prop :=
  ∃ entry ∈ delimited text "," true, entry ≠ "" ∧ Environment.OfEntry entry.toList e

/-- The environments that are read from a list are those that it lists. -/
theorem mem_environments_iff {e : Environment} : e ∈ environments text ↔ Lists text e := by
  simp [environments, Lists, Environment.ofEntry_iff, List.mem_filterMap, and_assoc]

/-- A disjunction holds if one of the conditions does. -/
theorem accepts_of_disjunction? {fs : List Filter} {f : Filter} (h : disjunction? fs = some f)
    (m : Attributes) : f.accepts m = fs.any (·.accepts m) := by
  unfold disjunction? at h
  split at h
  · cases h
  · obtain rfl := Option.some.inj h
    rw [List.any_cons, List.any_nil, Bool.or_false]
  · obtain rfl := Option.some.inj h
    rw [Filter.accepts, Filter.acceptsAny_eq_any]

/-- A requirement for the environments of a list: it is met by a capability of their namespace, with
a name and a version and nothing mandatory, if one of them allows the name and the version. The
directive says the same as the filter. -/
structure RequiresListed (text : String) (r : Requirement) : Prop where
  /-- The requirement is met by what one of the environments allows. -/
  accepts_iff : ∀ (c : Capability) (name : String) (v : Version), c.ns = Names.environment →
    mandatoryNames c.directives = [] → c.attributes.get? Names.environment = some (.str name) →
    c.attributes.get? Names.version = some (.version v) →
    (r.accepts c = true ↔ ∃ e, Lists text e ∧ e.Allows name v)
  /-- The recorded filter is read as the filter. -/
  parse_recorded : ∃ recorded, r.directives.get? Names.filter = some recorded ∧
    Filter.parse recorded = .ok r.filter

/-- The requirement for a list of environments asks for those that it lists. -/
theorem requiresListed_of_readEnvironments {r : Requirement} (h : readEnvironments text = .ok rs)
    (hr : r ∈ rs) : RequiresListed text r := by
  obtain ⟨fs, hfs, hrs⟩ := readEnvironments_eq_ok h
  obtain ⟨f, hf, hmade⟩ := exists_of_mem_of_forall₂ hrs hr
  have hrecorded : r.directives.get? Names.filter = some f.text := by
    rw [hmade.directives_eq]
    rfl
  refine ⟨fun c name v hns hmandatory hname hversion => ?_,
    f.text, hrecorded, parse_of_readEnvironments h hr hrecorded⟩
  have haccepts : r.accepts c = fs.any (·.accepts c.attributes) := by
    rw [Requirement.accepts_eq_of_notMem_mandatory (hmade.ns_eq.trans hns.symm)
      (Capability.notMem_mandatory hmandatory), hmade.filter_eq,
      accepts_of_disjunction? (Option.mem_toList.mp hf)]
  -- The conditions are those of the environments, and there is one for each of them.
  obtain ⟨hsome, hall⟩ := mapM_eq_ok (mapM_eq_ok_iff.mpr hfs)
  rw [haccepts, List.any_eq_true]
  constructor
  · rintro ⟨g, hg, haccepted⟩
    obtain ⟨e, he, hfilter⟩ := (hall g).mp hg
    exact ⟨e, mem_environments_iff.mp he,
      (Environment.accepts_filter_iff hfilter hname hversion).mp haccepted⟩
  · rintro ⟨e, he, hallows⟩
    rw [← mem_environments_iff] at he
    obtain ⟨g, hfilter⟩ := hsome e he
    exact ⟨g, (hall g).mpr ⟨e, he, hfilter⟩,
      (Environment.accepts_filter_iff hfilter hname hversion).mpr hallows⟩

/-- A list cannot be read if the text of a version in it is none. -/
theorem fails_readEnvironments_iff : Fails (readEnvironments text) ↔
    ∃ e, Lists text e ∧ ∃ version ∈ e.version, Version.parse? (String.ofList version) = none := by
  have hconditions : Fails ((environments text).mapM (·.filter)) ↔
      ∃ e, Lists text e ∧ ∃ version ∈ e.version, Version.parse? (String.ofList version) = none := by
    simp only [fails_mapM_iff, Environment.fails_filter_iff, mem_environments_iff]
  rw [← hconditions]
  -- The requirement has fixed attributes and directives, so making it does not fail.
  refine (fails_bind_iff fun fs => ?_).trans (iff_of_eq (or_false _))
  split
  · exact iff_of_false (not_fails_ok _) not_false
  · exact iff_of_false (not_fails_ok _) not_false

/-- A list of execution environments is read if the text of every version in it is one. It then
requires nothing if no entry stands for an environment, and otherwise one of the environments. -/
theorem readEnvironments_disjunction (text : String) :
    (∀ rs, readEnvironments text = .ok rs →
      (rs = [] ∧ ∀ e, ¬ Lists text e) ∨
        ∃ r, rs = [r] ∧ (∃ e, Lists text e) ∧ RequiresListed text r) ∧
    (Fails (readEnvironments text) ↔ ∃ e, Lists text e ∧
      ∃ version ∈ e.version, Version.parse? (String.ofList version) = none) := by
  refine ⟨fun rs h => ?_, fails_readEnvironments_iff⟩
  have hone := eq_of_readEnvironments h
  split at hone
  next hnil =>
    refine .inl ⟨hone, fun e he => ?_⟩
    rw [← mem_environments_iff, hnil] at he
    cases he
  next hne =>
    obtain ⟨r, rfl, -⟩ := hone
    obtain ⟨e, he⟩ := List.exists_mem_of_ne_nil _ hne
    exact .inr ⟨r, rfl, ⟨e, mem_environments_iff.mp he⟩,
      requiresListed_of_readEnvironments h (List.mem_singleton_self r)⟩

/-- What a platform provides as an execution environment. -/
def environmentOf (name : String) (v : Version) : Capability where
  clause :=
    { ns := Names.environment
      directives := .empty
      attributes := .ofList [(Names.environment, .str name), (Names.version, .version v)]
      ns_proper := by decide
      disjoint := nofun }
  mandatory_held := nofun

/-- A list of a renamed environment, one with a slash in its name, and one with two versions. -/
def mixedEnvironments : String :=
  "J2SE-1.4, OSGi/Minimum-1.2, A-1/B-2"

/-- Two environments of the list are required, the third one is skipped. -/
theorem exists_requirement_mixedEnvironments : ∃ r, readEnvironments mixedEnvironments = .ok [r] ∧
    ∀ name v, r.accepts (environmentOf name v) = true ↔
      ("JavaSE" = name ∧ .ofNumbers 1 4 0 = v) ∨
        ("OSGi/Minimum" = name ∧ .ofNumbers 1 2 0 = v) := by
  obtain ⟨rs, hrs, -⟩ := exists_of_any_toOption (x := readEnvironments mixedEnvironments)
    (fun _ => true) (by decide +kernel)
  let java : Environment := ⟨"J2SE".toList, some "1.4".toList⟩
  let minimum : Environment := ⟨"OSGi/Minimum".toList, some "1.2".toList⟩
  have hlist : environments mixedEnvironments = [java, minimum] := rfl
  rcases (readEnvironments_disjunction _).1 rs hrs with ⟨-, hnone⟩ | ⟨r, rfl, -, hr⟩
  · exact absurd (mem_environments_iff.mp (hlist ▸ List.mem_cons_self ..)) (hnone java)
  refine ⟨r, hrs, fun name v => ?_⟩
  have hjava : java.Allows name v ↔ "JavaSE" = name ∧ .ofNumbers 1 4 0 = v :=
    Environment.allows_iff_of_version_eq rfl (by decide +kernel)
  have hminimum : minimum.Allows name v ↔ "OSGi/Minimum" = name ∧ .ofNumbers 1 2 0 = v :=
    Environment.allows_iff_of_version_eq rfl (by decide +kernel)
  rw [hr.accepts_iff (environmentOf name v) name v rfl rfl rfl rfl, ← hjava, ← hminimum]
  simp only [← mem_environments_iff, hlist, List.mem_cons, List.not_mem_nil, or_false,
    exists_eq_or_imp, exists_eq_left]

end BundleWiring.Manifest
