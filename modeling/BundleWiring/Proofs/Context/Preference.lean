import BundleWiring.Candidate
import BundleWiring.Proofs.Attribute.Order
import Mathlib.Tactic.SplitIfs

/-!
# The Preference among Candidates

Candidates of different namespaces tie unless the framework decides, so the comparison as a whole is
not transitive. Within one namespace it compares by whether the framework owns the candidates and
then by name and versions, which is oriented and transitive on all capabilities. This module proves:

- `compare_eq_compareWithin`: candidates of one namespace are compared within the namespace;
- `givesVersion_iff`: the version that candidates are compared by is the one of their attributes;
- `isSystem_of_compare_ne_gt` and `compareNormalized_ne_lt_of_compare_ne_gt`: what a candidate that
  is not behind another one tells about the two;
- `compare_totalPreorder`: the comparison is a total preorder on each namespace, with the higher
  version of one name first.
-/

namespace BundleWiring

open Std

instance : TransCmp Version.compareNormalized :=
  inferInstanceAs (TransCmp (compareLex (compareOn Version.major) <|
    compareLex (compareOn Version.minor) <| compareLex (compareOn Version.micro)
      (compareOn Version.normalQualifier)))

namespace Candidate

instance (name : String) : TransCmp (byName name) :=
  inferInstanceAs (TransCmp (compareOn fun a : Attributes => a.get? name))

instance (name : String) : TransCmp (byVersion name) where
  eq_swap := show Version.compareNormalized _ _ = (Version.compareNormalized _ _).swap from
    OrientedCmp.eq_swap
  isLE_trans {a b c} hab hbc := by
    have hcb : (Version.compareNormalized (versionOf c name) (versionOf b name)).isLE = true := hbc
    show (Version.compareNormalized (versionOf c name) (versionOf a name)).isLE = true
    exact TransCmp.isLE_trans hcb hab

/-- Within a namespace, up to three comparisons decide one after the other. -/
theorem compareIn_eq_ite (ns : String) : compareIn ns =
    if ns = Names.bundle then compareLex (byName ns) (byVersion Names.bundleVersion)
    else if ns = Names.package then
      compareLex (compareLex (byName ns) (byVersion Names.version))
        (byVersion Names.bundleVersion)
    else if ns = Names.identity then compareLex (byName ns) (byVersion Names.version)
    else fun _ _ => .eq := by
  funext a b
  rw [compareIn]
  split_ifs <;> rfl

instance (ns : String) : TransCmp (compareIn ns) := by
  have htie : TransCmp fun _ _ : Attributes => Ordering.eq :=
    { eq_swap := rfl, isLE_trans := fun _ h => h }
  rw [compareIn_eq_ite]
  split_ifs <;> infer_instance

variable {living : Nat → Bool} {ns : String} {p q s : Owned Capability} {a b : Attributes}

/-- The order of candidates of one namespace: those of the framework first. -/
def compareWithin (living : Nat → Bool) (ns : String) :
    Owned Capability → Owned Capability → Ordering :=
  compareLex (compareOn fun p => !isSystem living p) fun p q =>
    compareIn ns p.item.attributes q.item.attributes

instance : TransCmp (compareWithin living ns) :=
  have : TransCmp fun p q : Owned Capability => compareIn ns p.item.attributes q.item.attributes :=
    { eq_swap := show compareIn ns _ _ = (compareIn ns _ _).swap from OrientedCmp.eq_swap
      isLE_trans := fun {p q _} hpq hqs => by
        have hle : (compareIn ns p.item.attributes q.item.attributes).isLE = true := hpq
        exact TransCmp.isLE_trans hle hqs }
  inferInstanceAs (TransCmp (compareLex _ _))

/-- Candidates of one namespace are compared within the namespace. -/
theorem compare_eq_compareWithin (hp : p.item.ns = ns) (hq : q.item.ns = ns) :
    compare living p q = compareWithin living ns p q := by
  rw [compare, compareWithin, compareLex, compareOn, hp, hq, if_pos rfl]
  cases isSystem living p <;> cases isSystem living q <;> rfl

/-- What is not behind a capability of the framework belongs to the framework. -/
theorem isSystem_of_compare_ne_gt (h : compare living p q ≠ .gt) (hq : isSystem living q = true) :
    isSystem living p = true := by
  rw [← Bool.not_eq_false]
  intro hp
  exact h (by rw [compare, hp, hq])

/-- The version that some attributes give under a name: a version, or a text that is read as one,
or else the lowest version. -/
inductive GivesVersion (a : Attributes) (name : String) : Version → Prop where
  /-- The attribute is a version. -/
  | version {v : Version} : a.get? name = some (.version v) → GivesVersion a name v
  /-- The attribute is the text of a version. -/
  | text {s : String} {v : Version} : a.get? name = some (.str s) → Version.parse? s = some v →
    GivesVersion a name v
  /-- The attribute is neither of them, or missing. -/
  | other : (∀ v, a.get? name ≠ some (.version v)) →
    (∀ s, a.get? name = some (.str s) → Version.parse? s = none) → GivesVersion a name .zero

/-- Attributes give one version under each name, which is the one that candidates are compared
by. -/
theorem givesVersion_iff {name : String} {v : Version} :
    GivesVersion a name v ↔ versionOf a name = v := by
  constructor
  · rintro (hget | ⟨hget, hparse⟩ | ⟨hversion, htext⟩)
    · rw [versionOf, hget]
    · rw [versionOf, hget]
      dsimp only
      rw [hparse, Option.getD_some]
    · unfold versionOf
      split
      next w hget => exact absurd hget (hversion w)
      next s hget => rw [htext s hget, Option.getD_none]
      next => rfl
  · rintro rfl
    -- What the name has for a value decides which of the three cases it is.
    unfold versionOf
    split
    next w hget => exact .version hget
    next s hget =>
      cases hparse : Version.parse? s with
      | none =>
        refine .other (fun v hv => nomatch hget.symm.trans hv) fun s' hs' => ?_
        obtain rfl : s = s' := by simpa using hget.symm.trans hs'
        exact hparse
      | some w => exact .text hget hparse
    next hversion htext => exact .other hversion fun s hget => absurd hget (htext s)

/-- Attributes do not give two versions under one name. -/
theorem GivesVersion.unique {name : String} {v w : Version} (hv : GivesVersion a name v)
    (hw : GivesVersion a name w) : v = w :=
  (givesVersion_iff.mp hv).symm.trans (givesVersion_iff.mp hw)

/-- Of two packages of one name, neither of them the framework's, the one that is not behind the
other one has no lower version. -/
theorem compareNormalized_ne_lt_of_compare_ne_gt (h : compare living p q ≠ .gt)
    (hp : isSystem living p = false) (hq : isSystem living q = false)
    (hpns : p.item.ns = Names.package) (hqns : q.item.ns = Names.package)
    (hname : p.item.attributes.get? Names.package = q.item.attributes.get? Names.package)
    {v w : Version} (hv : GivesVersion p.item.attributes Names.version v)
    (hw : GivesVersion q.item.attributes Names.version w) :
    Version.compareNormalized v w ≠ .lt := by
  rw [← givesVersion_iff.mp hv, ← givesVersion_iff.mp hw]
  intro hlt
  -- The names tie, so that a lower version would put the first package behind the second one.
  have htie : byName Names.package p.item.attributes q.item.attributes = .eq := by
    rw [byName, hname]
    exact ReflOrd.compare_self
  have hgt : byVersion Names.version p.item.attributes q.item.attributes = .gt :=
    OrientedCmp.gt_of_lt hlt
  refine h ?_
  rw [compare, hp, hq, hpns, hqns, if_pos rfl, compareIn, if_neg (by decide), if_pos rfl, htie,
    hgt]
  rfl

/-! ### A total preorder on each namespace -/

/-- Exchanging two candidates reverses their order, also if their namespaces differ. -/
theorem compare_swap (living : Nat → Bool) (p q : Owned Capability) :
    compare living p q = (compare living q p).swap := by
  by_cases hns : p.item.ns = q.item.ns
  · rw [compare_eq_compareWithin hns rfl, compare_eq_compareWithin rfl hns]
    exact OrientedCmp.eq_swap
  · rw [compare, compare, if_neg hns, if_neg (Ne.symm hns)]
    cases isSystem living p <;> cases isSystem living q <;> rfl

/-- Candidates that tie compare alike with every other one of their namespace. -/
theorem compare_congr_left (hp : p.item.ns = ns) (hq : q.item.ns = ns) (hs : s.item.ns = ns)
    (h : compare living p q = .eq) : compare living p s = compare living q s := by
  rw [compare_eq_compareWithin hp hq] at h
  rw [compare_eq_compareWithin hp hs, compare_eq_compareWithin hq hs]
  exact TransCmp.congr_left h

/-- Within a namespace, what is not behind something that is not behind a third one is not behind
that one either. -/
theorem compare_ne_gt_trans (hp : p.item.ns = ns) (hq : q.item.ns = ns) (hs : s.item.ns = ns)
    (hpq : compare living p q ≠ .gt) (hqs : compare living q s ≠ .gt) :
    compare living p s ≠ .gt := by
  rw [compare_eq_compareWithin hp hq] at hpq
  rw [compare_eq_compareWithin hq hs] at hqs
  rw [compare_eq_compareWithin hp hs]
  have hle : (compareWithin living ns p s).isLE = true :=
    TransCmp.isLE_trans (Ordering.isLE_iff_ne_gt.mpr hpq) (Ordering.isLE_iff_ne_gt.mpr hqs)
  exact Ordering.isLE_iff_ne_gt.mp hle

/-- The namespaces whose candidates have a name and a version, each with the attribute that holds
the version. -/
def versioned : List (String × String) :=
  [(Names.bundle, Names.bundleVersion), (Names.package, Names.version),
    (Names.identity, Names.version)]

/-- Of two sets of attributes with one name, the one with the higher version comes first. -/
theorem compareIn_eq_lt {name : String} (hmem : (ns, name) ∈ versioned)
    (hname : byName ns a b = .eq) (hversion : byVersion name a b = .lt) :
    compareIn ns a b = .lt := by
  rw [versioned, List.mem_cons, List.mem_cons, List.mem_singleton] at hmem
  rcases hmem with hbundle | hpackage | hidentity
  · obtain ⟨rfl, rfl⟩ := Prod.mk.inj hbundle
    rw [compareIn, if_pos rfl, hname, hversion]
    rfl
  · obtain ⟨rfl, rfl⟩ := Prod.mk.inj hpackage
    rw [compareIn, if_neg (by decide), if_pos rfl, hname, hversion]
    rfl
  · obtain ⟨rfl, rfl⟩ := Prod.mk.inj hidentity
    rw [compareIn, if_neg (by decide), if_neg (by decide), if_pos rfl, hname, hversion]
    rfl

/-- Attributes that hold the same value under a name, or both none, tie in it. -/
theorem byName_eq_eq_iff {name : String} :
    byName name a b = .eq ↔ (a.get? name == b.get? name) = true := by
  rw [byName]
  cases a.get? name <;> cases b.get? name
  · exact iff_of_true rfl rfl
  · exact iff_of_false nofun nofun
  · exact iff_of_false nofun nofun
  next v w => exact (beq_iff_eq (a := AttrValue.cmp v w) (b := Ordering.eq)).symm

/-- At every moment the comparison of candidates is a total preorder on each namespace. Exchanging
any two candidates reverses it; among the candidates of one namespace it is transitive, and those
that tie can replace each other; and of two bundles, packages or identities that have one name and
both belong to the framework, or both do not, the one of the higher version comes first. -/
theorem compare_totalPreorder (living : Nat → Bool) :
    (∀ p q, compare living p q = (compare living q p).swap) ∧
    (∀ ns p q s, p.item.ns = ns → q.item.ns = ns → s.item.ns = ns →
      (compare living p q ≠ .gt → compare living q s ≠ .gt → compare living p s ≠ .gt) ∧
      (compare living p q = .eq → compare living p s = compare living q s)) ∧
    ∀ ns name, (ns, name) ∈ versioned → ∀ p q, p.item.ns = ns → q.item.ns = ns →
      isSystem living p = isSystem living q →
      (p.item.attributes.get? ns == q.item.attributes.get? ns) = true →
      Version.compareNormalized (versionOf p.item.attributes name)
        (versionOf q.item.attributes name) = .gt →
      compare living p q = .lt := by
  refine ⟨compare_swap living, fun ns p q s hp hq hs => ⟨?_, ?_⟩, ?_⟩
  · exact compare_ne_gt_trans hp hq hs
  · exact compare_congr_left hp hq hs
  · intro ns name hmem p q hp hq hsystem hname hversion
    -- The owners and the names tie, so that the versions decide.
    have hlt : compareIn ns p.item.attributes q.item.attributes = .lt :=
      compareIn_eq_lt hmem (byName_eq_eq_iff.mpr hname) (OrientedCmp.lt_of_gt hversion)
    rw [compare_eq_compareWithin hp hq, compareWithin, compareLex, compareOn, hsystem,
      ReflOrd.compare_self, hlt]
    rfl

/-- The identity of a resource of some major version. -/
def identityOf (id : Nat) (major : UInt32) : Owned Capability where
  owner :=
    { id
      resource := ⟨"acme", Names.bundleKind, .ofNumbers major 0 0, false, [], []⟩ }
  index := 0
  item := Resource.identity "acme" Names.bundleKind (.ofNumbers major 0 0)

/-- The higher version comes first, also while its owner is no longer in use, and from one version
to the next this reaches the lowest one. -/
theorem compare_identityOf : compare (· != 3) (identityOf 3 3) (identityOf 2 2) = .lt ∧
    compare (· != 3) (identityOf 3 3) (identityOf 1 1) ≠ .gt := by
  obtain ⟨-, hwithin, hversions⟩ := compare_totalPreorder (· != 3)
  have hfirst : compare (· != 3) (identityOf 3 3) (identityOf 2 2) = .lt :=
    hversions Names.identity Names.version (by decide) _ _ rfl rfl rfl (by decide) (by decide)
  have hsecond : compare (· != 3) (identityOf 2 2) (identityOf 1 1) = .lt :=
    hversions Names.identity Names.version (by decide) _ _ rfl rfl rfl (by decide) (by decide)
  refine ⟨hfirst, (hwithin Names.identity _ (identityOf 2 2) _ rfl rfl rfl).1 ?_ ?_⟩
  · rw [hfirst]
    decide
  · rw [hsecond]
    decide

end Candidate

end BundleWiring
