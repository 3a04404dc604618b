import BundleWiring.Proofs.CapabilitySet.Lookup
import BundleWiring.Proofs.Equality
import BundleWiring.Repository

/-!
# Repositories and their Capability Sets

The sets of a repository hold what its resource objects provide: the set of a namespace has the
capabilities of the objects there, in the order of the repository and, for one object, in the
order of the object. Objects are compared by what they are and capabilities by their handles, so
that an object may be removed through an equal one. This module proves:

- `heldIn_foldl_addCapability` and `heldIn_foldl_removeCapability`: what adding and removing the
  capabilities of an object does to the sets;
- `Faithful.add` and `Faithful.remove`: a repository stays faithful to its resource objects.
-/

namespace BundleWiring

/-! ### Handles of one object -/

namespace Installed

variable {r r' : Installed} {ns : String} {p : Owned Capability}

/-- The capabilities of an object are owned by it. -/
theorem owner_of_mem_capabilities (hp : p ∈ r.capabilities) : p.handle.owner = r.id := by
  obtain ⟨index, _, rfl⟩ := List.mem_mapIdx.mp hp
  rfl

/-- The capabilities of an object have different handles. -/
theorem nodup_handles_capabilities : (r.capabilities.map Owned.handle).Nodup := by
  rw [capabilities, List.Nodup, List.pairwise_map, List.pairwise_iff_getElem]
  intro i j hi hj hlt heq
  have hindex := congrArg Handle.index heq
  simp only [List.getElem_mapIdx, Owned.handle] at hindex
  omega

/-- The capabilities of a namespace are among all capabilities. -/
theorem mem_capabilities_of_mem_capabilitiesIn (hp : p ∈ r.capabilitiesIn ns) :
    p ∈ r.capabilities :=
  List.mem_of_mem_filter hp

end Installed

namespace Repository

/-! ### The sets of a repository -/

/-- The capabilities that the set of a namespace holds. -/
def heldIn (sets : Table CapabilitySet) (ns : String) : List (Owned Capability) :=
  (sets.get? ns).elim [] CapabilitySet.capabilities

/-- All sets are consistent. -/
def ConsistentSets (sets : Table CapabilitySet) : Prop :=
  ∀ ns set, sets.get? ns = some set → set.Consistent

variable {config : Config} {sets : Table CapabilitySet} {ns : String} {p : Owned Capability}

/-- Adding a capability keeps all sets consistent. -/
theorem ConsistentSets.addCapability (hsets : ConsistentSets sets) (p : Owned Capability) :
    ConsistentSets (addCapability config sets p) := by
  intro ns set hset
  rw [Repository.addCapability, Table.get?_insert] at hset
  split at hset
  · obtain rfl := Option.some.inj hset
    cases hget : sets.get? p.item.ns with
    | none => exact (CapabilitySet.consistent_empty _).add p
    | some set => exact (hsets _ _ hget).add p
  · exact hsets ns set hset

/-- Removing a capability keeps all sets consistent. -/
theorem ConsistentSets.removeCapability (hsets : ConsistentSets sets) (p : Owned Capability) :
    ConsistentSets (removeCapability sets p) := by
  intro ns set hset
  rw [Repository.removeCapability] at hset
  split at hset
  next => exact hsets ns set hset
  next found hfound =>
    rw [Table.get?_insert] at hset
    split at hset
    · obtain rfl := Option.some.inj hset
      exact (hsets _ _ hfound).remove p.handle
    · exact hsets ns set hset

/-- A capability with a new handle comes last in the set of its namespace. -/
theorem heldIn_addCapability (hnew : p.handle ∉ (heldIn sets p.item.ns).map Owned.handle) :
    heldIn (addCapability config sets p) ns =
      heldIn sets ns ++ [p].filter (·.item.ns == ns) := by
  rw [heldIn, addCapability, Table.get?_insert]
  by_cases hns : ns = p.item.ns
  · subst hns
    rw [if_pos rfl, Option.elim_some]
    rw [heldIn] at hnew ⊢
    -- The set of the namespace may have to be made first.
    cases hget : sets.get? p.item.ns with
    | none =>
      rw [Option.getD_none,
        CapabilitySet.capabilities_add_of_notMem (by simp [CapabilitySet.empty])]
      simp [CapabilitySet.empty]
    | some set =>
      rw [hget] at hnew
      rw [Option.getD_some, CapabilitySet.capabilities_add_of_notMem (by simpa using hnew)]
      simp
  · have hne : (p.item.ns == ns) = false := by simpa using Ne.symm hns
    simp [if_neg hns, heldIn, hne]

/-- Removing a capability takes its handle out of the set of its namespace. -/
theorem heldIn_removeCapability :
    heldIn (removeCapability sets p) ns =
      if p.item.ns = ns then (heldIn sets ns).filter (·.handle != p.handle)
      else heldIn sets ns := by
  rw [removeCapability]
  split
  next hnone =>
    split
    next hns => rw [← hns, heldIn, hnone, Option.elim_none, List.filter_nil]
    next => rfl
  next set hset =>
    rw [heldIn, Table.get?_insert]
    split
    next hns =>
      rw [if_pos hns.symm, hns, heldIn, hset, Option.elim_some, Option.elim_some,
        CapabilitySet.capabilities_remove]
    next hns => rw [if_neg (Ne.symm hns), heldIn]

/-- Capabilities with new handles come last, in order, each in the set of its namespace. -/
theorem heldIn_foldl_addCapability {ps : List (Owned Capability)}
    (hps : (ps.map Owned.handle).Nodup)
    (hnew : ∀ p ∈ ps, ∀ ns, p.handle ∉ (heldIn sets ns).map Owned.handle) :
    heldIn (ps.foldl (addCapability config) sets) ns =
      heldIn sets ns ++ ps.filter (·.item.ns == ns) := by
  induction ps generalizing sets with
  | nil => simp
  | cons p ps ih =>
    rw [List.map_cons, List.nodup_cons] at hps
    have hp := hnew p (List.mem_cons_self ..)
    -- The remaining handles are still new, since the handles that are added differ.
    have hnew' : ∀ q ∈ ps, ∀ ns, q.handle ∉
        (heldIn (addCapability config sets p) ns).map Owned.handle := by
      intro q hq ns hmem
      rw [heldIn_addCapability (hp _), List.map_append, List.mem_append] at hmem
      rcases hmem with hmem | hmem
      · exact hnew q (List.mem_cons_of_mem _ hq) ns hmem
      · obtain ⟨q', hq', heq⟩ := List.mem_map.mp hmem
        obtain rfl : q' = p := List.mem_singleton.mp (List.mem_of_mem_filter hq')
        exact hps.1 (heq ▸ List.mem_map_of_mem hq)
    rw [List.foldl_cons, ih hps.2 hnew', heldIn_addCapability (hp _), List.append_assoc,
      ← List.filter_append, List.singleton_append]

/-- Removed capabilities are missing in the sets of their namespaces. -/
theorem heldIn_foldl_removeCapability (ps : List (Owned Capability)) :
    heldIn (ps.foldl removeCapability sets) ns = (heldIn sets ns).filter fun q =>
      decide (q.handle ∉ (ps.filter (·.item.ns == ns)).map Owned.handle) := by
  induction ps generalizing sets with
  | nil => simp
  | cons p ps ih =>
    rw [List.foldl_cons, ih, heldIn_removeCapability]
    by_cases hns : p.item.ns = ns
    · rw [if_pos hns, List.filter_filter, List.filter_cons_of_pos (by simpa using hns)]
      refine List.filter_congr fun q _ => ?_
      rw [Bool.eq_iff_iff]
      simp only [bne_iff_ne, Bool.and_eq_true, decide_eq_true_eq, List.map_cons, List.mem_cons,
        not_or, and_comm, ne_eq]
    · rw [if_neg hns, List.filter_cons_of_neg (by simpa using hns)]

/-! ### Faithful repositories -/

/-- A repository that holds objects as they are numbered, no two of them equal, and in the sets
exactly their capabilities. -/
structure Faithful (objects : Nat → Resource) (repo : Repository) : Prop where
  /-- No two of the resource objects are equal. -/
  distinct : repo.resources.Pairwise fun r r' => (r.resource == r'.resource) = false
  /-- Each resource object is the one that its number stands for. -/
  numbered : ∀ r ∈ repo.resources, objects r.id = r.resource
  /-- The sets are consistent. -/
  consistent : ConsistentSets repo.sets
  /-- The sets hold the capabilities of the resource objects. -/
  heldIn_eq : ∀ ns, heldIn repo.sets ns = repo.resources.flatMap (·.capabilitiesIn ns)

variable {objects : Nat → Resource} {repo : Repository} {r : Installed}

/-- Every handle in a set belongs to an object of the repository. -/
theorem Faithful.exists_of_mem_heldIn (hrepo : Faithful objects repo)
    (hp : p ∈ heldIn repo.sets ns) : ∃ r ∈ repo.resources, p ∈ r.capabilitiesIn ns := by
  rw [hrepo.heldIn_eq ns] at hp
  exact List.mem_flatMap.mp hp

/-- Different places of a repository hold objects with different numbers. -/
theorem Faithful.pairwise_id_ne (hrepo : Faithful objects repo) :
    repo.resources.Pairwise fun r r' => r.id ≠ r'.id := by
  refine hrepo.distinct.imp_of_mem fun {r r'} hr hr' hne heq => ?_
  rw [← hrepo.numbered r hr, ← hrepo.numbered r' hr', heq, beq_self_eq_true] at hne
  cases hne

/-- An empty repository is faithful. -/
theorem faithful_empty (objects : Nat → Resource) (config : Config) :
    Faithful objects (empty config) where
  distinct := List.Pairwise.nil
  numbered _ hr := by cases hr
  consistent _ _ hset := by cases hset
  heldIn_eq _ := rfl

/-- An object that is not equal to any of the repository has a new number. -/
theorem Faithful.id_ne_of_holds_eq_false (hrepo : Faithful objects repo)
    (hid : objects r.id = r.resource) (hholds : repo.holds r.resource = false) :
    ∀ r' ∈ repo.resources, r'.id ≠ r.id := by
  intro r' hr' heq
  refine Bool.false_ne_true (hholds.symm.trans (List.any_eq_true.mpr ⟨r', hr', ?_⟩))
  rw [← hrepo.numbered r' hr', ← hid, heq, beq_self_eq_true]

/-- Adding an object keeps a repository faithful. -/
theorem Faithful.add (hrepo : Faithful objects repo) (hid : objects r.id = r.resource) :
    Faithful objects (repo.add r).2 := by
  rw [Repository.add]
  split
  next => exact hrepo
  next hholds =>
    have hholds : repo.holds r.resource = false := by simpa using hholds
    have hne := hrepo.id_ne_of_holds_eq_false hid hholds
    -- A handle in a set carries the number of a held object, and the number is new.
    have hnew : ∀ p ∈ r.capabilities, ∀ ns,
        p.handle ∉ (heldIn repo.sets ns).map Owned.handle := by
      intro p hp ns hmem
      obtain ⟨q, hq, heq⟩ := List.mem_map.mp hmem
      obtain ⟨r', hr', hq'⟩ := hrepo.exists_of_mem_heldIn hq
      refine hne r' hr' ?_
      rw [← Installed.owner_of_mem_capabilities hp, ← heq]
      exact (Installed.owner_of_mem_capabilities
        (Installed.mem_capabilities_of_mem_capabilitiesIn hq')).symm
    constructor
    · rw [List.pairwise_append]
      refine ⟨hrepo.distinct, List.pairwise_singleton _ _, fun r' hr' r'' hr'' => ?_⟩
      obtain rfl := List.mem_singleton.mp hr''
      simpa using List.any_eq_false.mp hholds r' hr'
    · intro r' hr'
      rcases List.mem_append.mp hr' with hr' | hr'
      · exact hrepo.numbered r' hr'
      · rw [List.mem_singleton.mp hr', hid]
    · exact List.foldlRecOn r.capabilities _ hrepo.consistent
        fun _ hsets p _ => hsets.addCapability p
    · intro ns
      rw [heldIn_foldl_addCapability Installed.nodup_handles_capabilities hnew, hrepo.heldIn_eq,
        List.flatMap_append, List.flatMap_singleton]
      rfl

/-- Of the objects with another number, all capabilities stay when an object is removed. -/
theorem flatMap_capabilitiesIn_filter {rs : List Installed} (hrs : ∀ r' ∈ rs, r'.id ≠ r.id) :
    (rs.flatMap (·.capabilitiesIn ns)).filter
        (fun q => decide (q.handle ∉ (r.capabilitiesIn ns).map Owned.handle)) =
      rs.flatMap (·.capabilitiesIn ns) := by
  refine List.filter_eq_self.mpr fun q hq => decide_eq_true fun hmem => ?_
  obtain ⟨r', hr', hq⟩ := List.mem_flatMap.mp hq
  obtain ⟨p, hp, heq⟩ := List.mem_map.mp hmem
  refine hrs r' hr' ?_
  rw [← Installed.owner_of_mem_capabilities (Installed.mem_capabilities_of_mem_capabilitiesIn hq),
    ← heq]
  exact Installed.owner_of_mem_capabilities (Installed.mem_capabilities_of_mem_capabilitiesIn hp)

/-- Removing an object, through whichever equal one, keeps a repository faithful. -/
theorem Faithful.remove (hrepo : Faithful objects repo) (resource : Resource) :
    Faithful objects (repo.remove resource).2 := by
  rw [Repository.remove]
  split
  next => exact hrepo
  next removed hfind =>
    obtain ⟨hequal, before, after, hsplit, hbefore⟩ :=
      List.find?_eq_some_iff_append.mp hfind
    -- The object that goes is the first equal one, whichever object was asked for.
    have herase : repo.resources.eraseP (·.resource == resource) = before ++ after := by
      rw [hsplit, List.eraseP_append_right _ (by simpa using hbefore),
        List.eraseP_cons_of_pos (p := fun r : Installed => r.resource == resource) hequal]
    have hsub : (before ++ after).Sublist repo.resources := herase ▸ List.eraseP_sublist
    have hne := hrepo.pairwise_id_ne
    rw [hsplit, List.pairwise_append, List.pairwise_cons] at hne
    obtain ⟨-, ⟨hafter, -⟩, hbefore⟩ := hne
    constructor
    · exact herase ▸ hrepo.distinct.sublist hsub
    · exact fun r hr => hrepo.numbered r (hsub.subset (herase ▸ hr))
    · exact List.foldlRecOn removed.capabilities _ hrepo.consistent
        fun _ hsets p _ => hsets.removeCapability p
    · -- All of its capabilities go, and all capabilities of the objects around it stay.
      intro ns
      show heldIn (removed.capabilities.foldl removeCapability repo.sets) ns =
        (repo.resources.eraseP (·.resource == resource)).flatMap (·.capabilitiesIn ns)
      have hself : (removed.capabilitiesIn ns).filter
          (fun q => decide (q.handle ∉ (removed.capabilitiesIn ns).map Owned.handle)) = [] := by
        refine List.filter_eq_nil_iff.mpr fun q hq => ?_
        simpa using ⟨q, hq, rfl⟩
      rw [heldIn_foldl_removeCapability, ← Installed.capabilitiesIn, hrepo.heldIn_eq, herase,
        hsplit, List.flatMap_append, List.flatMap_append, List.flatMap_cons, List.filter_append,
        List.filter_append, hself, List.nil_append,
        flatMap_capabilitiesIn_filter fun r hr => hbefore r hr removed (List.mem_cons_self ..),
        flatMap_capabilitiesIn_filter fun r hr => (hafter r hr).symm]

end Repository

end BundleWiring
