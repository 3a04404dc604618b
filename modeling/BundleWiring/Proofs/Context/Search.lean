import BundleWiring.Context
import BundleWiring.Proofs.Context.Preference
import BundleWiring.Proofs.Repository.Refinement
import BundleWiring.Proofs.StableSort

/-!
# Searching for Providers

The providers of a requirement are found by looking up the capability set of its namespace and
sorting what is there by preference. All of them have the namespace of the requirement, so that the
comparison is a total preorder on them although it is none on all capabilities. This module proves:

- `pairwise_findProviders` and `filter_findProviders`: a search over a faithful repository is sorted
  by preference and keeps ties in the order of the repository;
- `findProviders_stable_sort`: after every history of a repository, a search answers with the held
  capabilities that the requirement accepts, stably sorted.
-/

namespace BundleWiring

open Repository

/-- The capabilities of an object belong to it. -/
theorem Installed.owner_eq_of_mem_capabilities {o : Installed} {p : Owned Capability}
    (hp : p ∈ o.capabilities) : p.owner = o := by
  obtain ⟨index, _, rfl⟩ := List.mem_mapIdx.mp hp
  rfl

/-- A requirement accepts capabilities of its own namespace only. -/
theorem Requirement.ns_eq_of_accepts {r : Requirement} {c : Capability}
    (h : r.accepts c = true) : c.ns = r.ns := by
  rw [accepts, Bool.and_eq_true, Bool.and_eq_true, beq_iff_eq] at h
  exact h.1.1.symm

namespace Repository

variable {objects : Nat → Resource} {repo : Repository} {r : Requirement} {p : Owned Capability}

/-- The providers of a requirement have the namespace of the requirement. -/
theorem Faithful.ns_eq_of_mem_providers (hrepo : Faithful objects repo)
    (hp : p ∈ repo.providers r) : p.item.ns = r.ns := by
  rw [hrepo.providers_eq_filter] at hp
  exact Requirement.ns_eq_of_accepts (List.mem_filter.mp hp).2

/-- The owners of providers are held by the repository. -/
theorem Faithful.owner_mem_of_mem_providers (hrepo : Faithful objects repo)
    (hp : p ∈ repo.providers r) : p.owner ∈ repo.resources := by
  rw [hrepo.providers_eq_filter] at hp
  obtain ⟨o, ho, hpo⟩ := List.mem_flatMap.mp (List.mem_filter.mp hp).1
  exact Installed.owner_eq_of_mem_capabilities hpo ▸ ho

end Repository

namespace Context

open Candidate

section Faithful

variable {objects : Nat → Resource} {context : Context} {living : Nat → Bool} {r : Requirement}
variable {p : Owned Capability}

/-- Sorting the providers of a requirement neither adds nor removes one. -/
theorem mem_findProviders : p ∈ context.findProviders living r ↔
    p ∈ context.repository.providers r :=
  List.mem_mergeSort

/-- Providers are sorted by the order within the namespace of the requirement. -/
theorem findProviders_eq_mergeSort (hrepo : Faithful objects context.repository) :
    context.findProviders living r = (context.repository.providers r).mergeSort
      fun p q => (compareWithin living r.ns p q).isLE := by
  refine mergeSort_congr fun p hp q hq => ?_
  rw [compare_eq_compareWithin (hrepo.ns_eq_of_mem_providers hp) (hrepo.ns_eq_of_mem_providers hq)]

/-- No provider is behind one that is preferred to it. -/
theorem pairwise_findProviders (hrepo : Faithful objects context.repository) :
    (context.findProviders living r).Pairwise fun p q => compare living p q ≠ .gt := by
  have hpairwise := pairwise_mergeSort_isLE (compareWithin living r.ns)
    (context.repository.providers r)
  rw [← findProviders_eq_mergeSort hrepo] at hpairwise
  refine hpairwise.imp_of_mem fun {p q} hp hq hle => ?_
  rw [mem_findProviders] at hp hq
  rw [compare_eq_compareWithin (hrepo.ns_eq_of_mem_providers hp) (hrepo.ns_eq_of_mem_providers hq)]
  exact Ordering.isLE_iff_ne_gt.mp hle

/-- The providers that tie with one of them keep the order of the repository. -/
theorem filter_findProviders (hrepo : Faithful objects context.repository)
    (hp : p ∈ context.repository.providers r) :
    (context.findProviders living r).filter (fun q => (compare living p q).isEq) =
      (context.repository.providers r).filter fun q => (compare living p q).isEq := by
  have hcongr : ∀ q ∈ context.repository.providers r,
      (compare living p q).isEq = (compareWithin living r.ns p q).isEq := by
    intro q hq
    rw [compare_eq_compareWithin (hrepo.ns_eq_of_mem_providers hp)
      (hrepo.ns_eq_of_mem_providers hq)]
  rw [List.filter_congr fun q hq => hcongr q (mem_findProviders.mp hq), List.filter_congr hcongr,
    findProviders_eq_mergeSort hrepo]
  exact filter_mergeSort_isEq (compareWithin living r.ns) p _

/-- While all objects of the repository are in use, a provider is one of the framework if its owner
is. -/
theorem isSystem_eq_of_mem_findProviders (hrepo : Faithful objects context.repository)
    (hliving : ∀ o ∈ context.repository.resources, living o.id = true)
    (hp : p ∈ context.findProviders living r) : isSystem living p = p.owner.resource.system := by
  have howner := hrepo.owner_mem_of_mem_providers (mem_findProviders.mp hp)
  rw [isSystem, Owned.livingOwner?, if_pos (hliving _ howner)]
  rfl

end Faithful

/-- After every history of calls, whatever other objects are in use, the search for a requirement
finds the held capabilities that the requirement accepts, none of them behind one that is preferred
to it, and those that are preferred alike in the order of the repository. So the capabilities of
the framework come first, and of other packages of one name none comes before a higher version. -/
theorem findProviders_stable_sort (config : Config) (objects : Nat → Resource) (calls : List Call)
    (context : Context) (others : List Installed) (r : Requirement) :
    let repo := (answers (call objects) (empty config) calls).2
    let living := fun id => (others ++ repo.resources).any (·.id == id)
    let accepted := (repo.resources.flatMap Installed.capabilities).filter (r.accepts ·.item)
    let found := { context with repository := repo }.findProviders living r
    found.Perm accepted ∧
      found.Pairwise (fun p q => compare living p q ≠ .gt) ∧
      (∀ p ∈ accepted, found.filter (fun q => (compare living p q).isEq) =
        accepted.filter fun q => (compare living p q).isEq) ∧
      found.Pairwise (fun p q => q.owner.resource.system = true →
        p.owner.resource.system = true) ∧
      found.Pairwise fun p q => p.owner.resource.system = false →
        q.owner.resource.system = false → p.item.ns = Names.package →
          p.item.attributes.get? Names.package = q.item.attributes.get? Names.package →
            ∀ v w, GivesVersion p.item.attributes Names.version v →
              GivesVersion q.item.attributes Names.version w →
                Version.compareNormalized v w ≠ .lt := by
  intro repo living accepted found
  have hrepo : Faithful objects repo := ((faithful_empty objects config).answers_refine calls).2
  have haccepted : repo.providers r = accepted := hrepo.providers_eq_filter r
  have hsorted : found.Pairwise fun p q => compare living p q ≠ .gt := pairwise_findProviders hrepo
  -- The repository holds the owners of what it finds, so they are all in use.
  have hsystem : ∀ p ∈ found, isSystem living p = p.owner.resource.system := by
    intro p hp
    refine isSystem_eq_of_mem_findProviders hrepo (fun o ho => ?_) hp
    exact List.any_eq_true.mpr ⟨o, List.mem_append_right others ho, beq_self_eq_true o.id⟩
  refine ⟨?_, hsorted, fun p hp => ?_, ?_, ?_⟩
  · rw [← haccepted]
    exact List.mergeSort_perm _ _
  · rw [← haccepted] at hp ⊢
    exact filter_findProviders hrepo hp
  · refine hsorted.imp_of_mem fun {p q} hp hq hle hqsystem => ?_
    rw [← hsystem p hp]
    exact isSystem_of_compare_ne_gt hle ((hsystem q hq).trans hqsystem)
  · refine hsorted.imp_of_mem fun {p q} hp hq hle hpsystem hqsystem hpackage hname v w hv hw => ?_
    have hqpackage : q.item.ns = Names.package := by
      rw [hrepo.ns_eq_of_mem_providers (mem_findProviders.mp hq),
        ← hrepo.ns_eq_of_mem_providers (mem_findProviders.mp hp), hpackage]
    exact compareNormalized_ne_lt_of_compare_ne_gt hle ((hsystem p hp).trans hpsystem)
      ((hsystem q hq).trans hqsystem) hpackage hqpackage hname hv hw

/-- The package `acme`, with something as its version. -/
def acmePackage (version : AttrValue) : Capability where
  clause :=
    { ns := Names.package
      directives := .empty
      attributes := .ofList [(Names.package, .str "acme"), (Names.version, version)]
      ns_proper := by decide
      disjoint := by simp [Table.names, Table.empty] }
  mandatory_held := by simp [mandatoryNames, Table.get?, Table.empty]

/-- What three exporters of the package give as its version: a version, the text of a higher one,
and nothing that is a version. -/
def versionGiven : Nat → AttrValue
  | 1 => .version (.ofNumbers 1 0 0)
  | 2 => .str "2.0"
  | _ => .list []

/-- The three exporters, the last of which belongs to the framework. -/
def exporter (id : Nat) : Resource where
  name := "acme"
  kind := Names.bundleKind
  version := .zero
  system := id == 3
  provided := [acmePackage (versionGiven id)]
  requirements := []

/-- The package of an exporter. -/
def exported (id : Nat) : Owned Capability where
  owner := ⟨id, exporter id⟩
  index := 1
  item := acmePackage (versionGiven id)

/-- A requirement that takes every package. -/
def anyPackage : Requirement where
  clause := (acmePackage (.list [])).clause
  filter := .all

/-- The package of the framework is found first, although it has the lowest version, and of the
others the one of the higher version. -/
theorem findProviders_exported :
    let repo := (answers (call exporter) (empty {}) [.add 1, .add 2, .add 3]).2
    let living := fun id => repo.resources.any (·.id == id)
    (Context.mk repo [] [] {}).findProviders living anyPackage =
      [exported 3, exported 2, exported 1] := by
  intro repo living
  obtain ⟨hperm, -, -, hsystem, hversions⟩ := findProviders_stable_sort {} exporter
    [.add 1, .add 2, .add 3] ⟨.empty {}, [], [], {}⟩ [] anyPackage
  have haccepted : (repo.resources.flatMap Installed.capabilities).filter
      (anyPackage.accepts ·.item) = [exported 1, exported 2, exported 3] :=
    rfl
  rw [haccepted] at hperm
  have hfirst : GivesVersion (exported 1).item.attributes Names.version (.ofNumbers 1 0 0) :=
    .version rfl
  have hsecond : GivesVersion (exported 2).item.attributes Names.version (.ofNumbers 2 0 0) :=
    .text rfl (by decide +kernel)
  -- Lists of the same members are equal if two of the members are in order one way only.
  refine List.Perm.eq_of_pairwise (fun p q hp hq hpq hqp => ?_) (hsystem.and hversions) ?_
    (hperm.trans (List.reverse_perm [exported 3, exported 2, exported 1]))
  · have hmem := hperm.mem_iff.mp hp
    simp only [List.mem_cons, List.not_mem_nil, or_false] at hmem hq
    rcases hmem with rfl | rfl | rfl <;> rcases hq with rfl | rfl | rfl
    · exact absurd (hpq.1 rfl) (by decide)
    · exact absurd (by decide) (hpq.2 rfl rfl rfl rfl _ _ hfirst hsecond)
    · rfl
    · exact absurd (hpq.1 rfl) (by decide)
    · rfl
    · exact absurd (by decide) (hqp.2 rfl rfl rfl rfl _ _ hfirst hsecond)
    · rfl
    · exact absurd (hqp.1 rfl) (by decide)
    · exact absurd (hqp.1 rfl) (by decide)
  · refine .cons (fun p hp => ⟨fun _ => rfl, nofun⟩) (.cons (fun p hp => ?_)
      (List.pairwise_singleton _ _))
    obtain rfl := List.mem_singleton.mp hp
    refine ⟨nofun, fun _ _ _ _ v w hv hw => ?_⟩
    obtain rfl := hsecond.unique hv
    obtain rfl := hfirst.unique hw
    decide

end Context

end BundleWiring
