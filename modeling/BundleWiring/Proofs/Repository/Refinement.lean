import BundleWiring.Proofs.Repository.Faithful

/-!
# Repositories as Lists of Resource Objects

A repository behaves as the plain list of the resource objects that it holds. This module proves:

- `Faithful.providers_eq_filter`: in a faithful repository, the capabilities that meet a
  requirement are the listed ones that the requirement accepts;
- `lookup_findProviders`: each of some requirements is answered with its own providers, although
  equal requirements share one answer;
- `run_refines_list`: a repository and the list give the same answers to every history of calls.
-/

namespace BundleWiring.Repository

variable {objects : Nat → Resource} {repo : Repository}

/-! ### Providers -/

/-- In a faithful repository, the providers of a requirement are the capabilities of the resource
objects that the requirement accepts, in order. -/
theorem Faithful.providers_eq_filter (hrepo : Faithful objects repo) (r : Requirement) :
    repo.providers r =
      (repo.resources.flatMap Installed.capabilities).filter (r.accepts ·.item) := by
  -- Without a set the namespace has no capabilities, and nothing is found.
  have hheld : repo.providers r = (heldIn repo.sets r.ns).filter fun p =>
      r.filter.accepts p.item.attributes && p.item.namedBy r.filter := by
    rw [providers, set?, heldIn]
    cases hset : repo.sets.get? r.ns with
    | none => rfl
    | some set =>
      rw [Option.elim_some, Option.elim_some, (hrepo.consistent _ _ hset).find_eq_filter]
      simp only [Bool.not_true, Bool.false_or]
  rw [hheld, hrepo.heldIn_eq, List.filter_flatMap, List.filter_flatMap]
  refine congrArg (repo.resources.flatMap ·) (funext fun o => ?_)
  rw [Installed.capabilitiesIn, List.filter_filter]
  refine List.filter_congr fun p _ => ?_
  rw [Requirement.accepts, BEq.comm, Bool.and_comm, Bool.and_assoc]

/-- Equal requirements have the same providers. -/
theorem providers_eq_of_beq {r r' : Requirement} (h : (r == r') = true) :
    repo.providers r = repo.providers r' := by
  rw [providers, providers, Requirement.ns_eq_of_beq h, Requirement.filter_eq_of_beq h]

/-- Of some requirements, those that are not equal to an earlier one. -/
def distinctRequirements (rs : List Requirement) : List Requirement :=
  rs.foldl (fun seen r => if seen.any (· == r) then seen else seen ++ [r]) []

/-- Each of some requirements is equal to one of the distinct ones. -/
theorem any_distinctRequirements {r : Requirement} {rs : List Requirement} (hr : r ∈ rs) :
    (distinctRequirements rs).any (· == r) = true := by
  -- A requirement that is among those seen stays there.
  suffices hseen : ∀ (rs seen : List Requirement), (r ∈ rs ∨ seen.any (· == r) = true) →
      (rs.foldl (fun seen r => if seen.any (· == r) then seen else seen ++ [r]) seen).any
        (· == r) = true from hseen rs [] (Or.inl hr)
  intro rs
  induction rs with
  | nil =>
    rintro seen (hr | hseen)
    · cases hr
    · exact hseen
  | cons r' rs ih =>
    rintro seen (hr | hseen)
    · rw [List.foldl_cons]
      rcases List.mem_cons.mp hr with rfl | hr
      · refine ih _ (Or.inr ?_)
        split
        next hany => exact hany
        next => simp
      · exact ih _ (Or.inl hr)
    · rw [List.foldl_cons]
      refine ih _ (Or.inr ?_)
      split
      · exact hseen
      · rw [List.any_append, hseen, Bool.true_or]

/-- Each of some requirements is answered with its own providers. -/
theorem lookup_findProviders {r : Requirement} {rs : List Requirement} (hr : r ∈ rs) :
    ((repo.findProviders rs).find? (·.1 == r)).map Prod.snd = some (repo.providers r) := by
  -- The answer stands under the first of the requirements that is equal to this one.
  obtain ⟨r', hr'⟩ : ∃ r', (distinctRequirements rs).find? (· == r) = some r' := by
    rw [← Option.isSome_iff_exists, List.find?_isSome, ← List.any_eq_true]
    exact any_distinctRequirements hr
  have heq : (r' == r) = true := List.find?_some (p := (· == r)) hr'
  have hlookup : (repo.findProviders rs).find? (·.1 == r) = some (r', repo.providers r') := by
    rw [findProviders, ← distinctRequirements, List.find?_map]
    exact congrArg (Option.map _) hr'
  rw [hlookup, Option.map_some, providers_eq_of_beq heq]

/-! ### Histories of calls -/

/-- A call that changes a repository. Resource objects are given by their numbers. -/
inductive Call where
  /-- An object is added. -/
  | add (id : Nat)
  /-- An object, or the one that is held in its place, is removed. -/
  | remove (id : Nat)

/-- The answer of a repository to a call, and the repository after it. -/
def call (objects : Nat → Resource) (repo : Repository) : Call → Bool × Repository
  | .add id => repo.add ⟨id, objects id⟩
  | .remove id => repo.remove (objects id)

/-- The answer of a list of resource objects to a call, and the list after it: an object is added
at the end unless an equal one is listed, and the first one that is equal is removed. -/
def callList (objects : Nat → Resource) (rs : List Installed) : Call → Bool × List Installed
  | .add id =>
    if rs.any (·.resource == objects id) then (false, rs) else (true, rs ++ [⟨id, objects id⟩])
  | .remove id =>
    if rs.any (·.resource == objects id) then (true, rs.eraseP (·.resource == objects id))
    else (false, rs)

/-- The answers to some calls, one after the other, and the state after them. -/
def answers {σ : Type} (step : σ → Call → Bool × σ) (s : σ) : List Call → List Bool × σ
  | [] => ([], s)
  | c :: cs => (answers step (step s c).2 cs).map ((step s c).1 :: ·) id

/-- A repository answers a call as the list of its resource objects does, and holds the list after
it. -/
theorem call_refines_callList (c : Call) :
    (call objects repo c).map id resources = callList objects repo.resources c := by
  cases c with
  | add id =>
    rw [call, callList, add, holds]
    split <;> rfl
  | remove id =>
    rw [call, callList, remove]
    -- A repository finds a resource if and only if its object is in the list.
    split
    next hnone =>
      have hany : repo.resources.any (·.resource == objects id) = false := by
        simpa using List.find?_eq_none.mp hnone
      rw [hany]
      rfl
    next removed hfind =>
      have hany : repo.resources.any (·.resource == objects id) = true :=
        List.any_eq_true.mpr ⟨removed, List.mem_of_find?_eq_some hfind,
          List.find?_some (p := fun r : Installed => r.resource == objects id) hfind⟩
      rw [hany]
      rfl

/-- A repository stays faithful with every call. -/
theorem Faithful.call (hrepo : Faithful objects repo) (c : Call) :
    Faithful objects (call objects repo c).2 := by
  cases c with
  | add id => exact hrepo.add rfl
  | remove id => exact hrepo.remove (objects id)

/-- A faithful repository answers a history of calls as the list of its resource objects does, and
is faithful after it. -/
theorem Faithful.answers_refine (hrepo : Faithful objects repo) (calls : List Call) :
    (answers (Repository.call objects) repo calls).map id resources =
        answers (callList objects) repo.resources calls ∧
      Faithful objects (answers (Repository.call objects) repo calls).2 := by
  induction calls generalizing repo with
  | nil => exact ⟨rfl, hrepo⟩
  | cons c cs ih =>
    obtain ⟨hanswers, hfaithful⟩ := ih (hrepo.call c)
    refine ⟨?_, hfaithful⟩
    have hstep := @call_refines_callList objects repo c
    rw [answers, answers, ← hstep]
    exact congrArg (Prod.map ((Repository.call objects repo c).1 :: ·) id) hanswers

/-- After every history of calls, a repository has answered as a plain list of distinct resource
objects and holds those of the list; the sets hold their capabilities, each handle once; and each
of some requirements is answered with those of the capabilities that it accepts. -/
theorem run_refines_list (config : Config) (objects : Nat → Resource) (calls : List Call) :
    let repo := (answers (call objects) (empty config) calls).2
    let held := (answers (callList objects) [] calls).2
    (answers (call objects) (empty config) calls).1 = (answers (callList objects) [] calls).1 ∧
      repo.resources = held ∧
      held.Pairwise (fun r r' => (r.resource == r'.resource) = false) ∧
      (∀ ns set, repo.set? ns = some set →
        set.capabilities = held.flatMap (·.capabilitiesIn ns) ∧
          (set.capabilities.map Owned.handle).Nodup) ∧
      ∀ rs, ∀ r ∈ rs, ((repo.findProviders rs).find? (·.1 == r)).map Prod.snd =
        some ((held.flatMap Installed.capabilities).filter (r.accepts ·.item)) := by
  intro repo held
  obtain ⟨hanswers, hrepo⟩ := (faithful_empty objects config).answers_refine calls
  have hheld : repo.resources = held := congrArg Prod.snd hanswers
  refine ⟨congrArg Prod.fst hanswers, hheld, hheld ▸ hrepo.distinct, fun ns set hset => ?_,
    fun rs r hr => ?_⟩
  -- A set that is there holds what the repository holds in its namespace.
  · have hcapabilities := hrepo.heldIn_eq ns
    rw [heldIn, ← set?, hset, Option.elim_some] at hcapabilities
    exact ⟨hheld ▸ hcapabilities, (hrepo.consistent ns set hset).nodup⟩
  · rw [lookup_findProviders hr, hrepo.providers_eq_filter, ← hheld]

end BundleWiring.Repository
