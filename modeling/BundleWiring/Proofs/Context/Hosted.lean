import BundleWiring.Proofs.Context.Search

/-!
# Hosted Capabilities among Others

The capability of a fragment's host is inserted into a list of candidates before the first one that
it is not behind. Whatever stands in front of that place is preferred to it. That nothing behind the
place is preferred to it takes a list of one namespace that is sorted by preference, because only
the first candidate behind the place was compared. This module proves:

- `compare_eq_lt_of_mem_take` and `Ranked.compare_ne_gt_of_mem_drop`: what stands in front of the
  place of a hosted capability, and what stands behind it;
- `Ranked.insertHosted` and `Ranked.filter_insertHosted`: a list that is sorted by preference stays
  sorted, and the inserted capability comes first among those that tie with it;
- `Ranked.foldl_insertHosted`: the same for any number of insertions;
- `insertHosted_ranked`: one insertion into a sorted list, and any number of insertions into the
  providers of a requirement.
-/

namespace BundleWiring

open Candidate Repository

/-- Inserting at a place within a list cuts the list there. -/
theorem insertIdx_eq_take_append {α : Type} {l : List α} {i : Nat} (hi : i ≤ l.length) (a : α) :
    l.insertIdx i a = l.take i ++ a :: l.drop i := by
  induction i generalizing l with
  | zero => rfl
  | succ i ih =>
    cases l with
    | nil => cases hi
    | cons b l =>
      rw [List.insertIdx_succ_cons, ih (Nat.le_of_succ_le_succ hi)]
      rfl

namespace Context

variable {living : Nat → Bool} {ns : String} {ps : List (Owned Capability)}
variable {p q hosted : Owned Capability}

/-- Candidates of one namespace, none of them behind one that is preferred to it. -/
structure Ranked (living : Nat → Bool) (ns : String) (ps : List (Owned Capability)) : Prop where
  /-- The candidates have the namespace. -/
  ns_eq : ∀ p ∈ ps, p.item.ns = ns
  /-- The candidates are sorted by preference. -/
  pairwise : ps.Pairwise fun p q => compare living p q ≠ .gt

/-- Whether two candidates are preferred alike. -/
def ties (living : Nat → Bool) (p q : Owned Capability) : Bool :=
  (compare living p q).isEq

/-! ### One insertion -/

/-- Inserting a hosted capability splits the list at its place. -/
theorem insertHosted_eq (living : Nat → Bool) (ps : List (Owned Capability))
    (hosted : Owned Capability) : insertHosted living ps hosted =
      ps.take (hostedIndex living ps hosted) ++ hosted :: ps.drop (hostedIndex living ps hosted) :=
  insertIdx_eq_take_append List.findIdx_le_length hosted

/-- Inserting a hosted capability adds it and nothing else. -/
theorem perm_insertHosted (living : Nat → Bool) (ps : List (Owned Capability))
    (hosted : Owned Capability) : (insertHosted living ps hosted).Perm (hosted :: ps) := by
  rw [insertHosted_eq]
  refine List.perm_middle.trans (List.Perm.cons hosted ?_)
  rw [List.take_append_drop]

/-- What stands in front of the place of a hosted capability is preferred to it. -/
theorem compare_eq_lt_of_mem_take (hp : p ∈ ps.take (hostedIndex living ps hosted)) :
    compare living p hosted = .lt := by
  obtain ⟨i, hi, rfl⟩ := List.mem_take_iff_getElem.mp hp
  have hnot := List.not_of_lt_findIdx (Nat.lt_of_lt_of_le hi (Nat.min_le_left _ _))
  rw [compare_swap]
  cases h : compare living hosted ps[i] <;> simp_all

/-- A hosted capability is not behind the first candidate at its place, and so not behind the others
there, none of which is preferred to the first one. -/
theorem Ranked.compare_ne_gt_of_mem_drop (hps : Ranked living ns ps) (hhosted : hosted.item.ns = ns)
    (hp : p ∈ ps.drop (hostedIndex living ps hosted)) : compare living hosted p ≠ .gt := by
  have hi : hostedIndex living ps hosted < ps.length := by
    have hlength := List.length_pos_of_mem hp
    rwa [List.length_drop, Nat.sub_pos_iff_lt] at hlength
  have hfirst : compare living hosted ps[hostedIndex living ps hosted] ≠ .gt :=
    Ordering.isLE_iff_ne_gt.mp (List.findIdx_getElem (w := hi))
  have hsorted := hps.pairwise.sublist (List.drop_sublist (hostedIndex living ps hosted) ps)
  rw [List.drop_eq_getElem_cons hi] at hp hsorted
  rcases List.mem_cons.mp hp with rfl | hp
  · exact hfirst
  · exact compare_ne_gt_trans hhosted (hps.ns_eq _ (List.getElem_mem hi))
      (hps.ns_eq p (List.mem_of_mem_drop hp)) hfirst ((List.pairwise_cons.mp hsorted).1 p hp)

/-- A list that is sorted by preference is still sorted with a hosted capability at its place. -/
theorem Ranked.insertHosted (hps : Ranked living ns ps) (hhosted : hosted.item.ns = ns) :
    Ranked living ns (insertHosted living ps hosted) := by
  constructor
  · intro p hp
    rcases List.mem_cons.mp ((perm_insertHosted living ps hosted).mem_iff.mp hp) with rfl | hp
    · exact hhosted
    · exact hps.ns_eq p hp
  -- The list is cut where the new capability goes, between those before it and all others.
  · have hsorted := hps.pairwise
    rw [← List.take_append_drop (hostedIndex living ps hosted) ps, List.pairwise_append] at hsorted
    obtain ⟨hfront, hback, hacross⟩ := hsorted
    rw [insertHosted_eq, List.pairwise_append, List.pairwise_cons]
    refine ⟨hfront, ⟨fun p => hps.compare_ne_gt_of_mem_drop hhosted, hback⟩, fun p hp q hq => ?_⟩
    rcases List.mem_cons.mp hq with rfl | hq
    · rw [compare_eq_lt_of_mem_take hp]
      exact Ordering.noConfusion
    · exact hacross p hp q hq

/-- A hosted capability comes first among the candidates that tie with it, and the ties of other
candidates stay as they are. -/
theorem Ranked.filter_insertHosted (hps : Ranked living ns ps) (hhosted : hosted.item.ns = ns)
    (hp : p.item.ns = ns) : (Context.insertHosted living ps hosted).filter (ties living p) =
      (hosted :: ps).filter (ties living p) := by
  have hsplit : ps.filter (ties living p) =
      (ps.take (hostedIndex living ps hosted)).filter (ties living p) ++
        (ps.drop (hostedIndex living ps hosted)).filter (ties living p) := by
    rw [← List.filter_append, List.take_append_drop]
  rw [insertHosted_eq, List.filter_append, List.filter_cons, List.filter_cons, hsplit]
  split
  next htie =>
    -- What ties with the hosted capability is not preferred to it, so nothing in front of it does.
    have hnone : (ps.take (hostedIndex living ps hosted)).filter (ties living p) = [] := by
      refine List.filter_eq_nil_iff.mpr fun q hq hpq => ?_
      have hqns := hps.ns_eq q (List.mem_of_mem_take hq)
      have hcongr := compare_congr_left hp hhosted hqns (Ordering.isEq_iff_eq_eq.mp htie)
      rw [ties, hcongr, compare_swap, compare_eq_lt_of_mem_take hq] at hpq
      cases hpq
    rw [hnone, List.nil_append, List.nil_append]
  next => rfl

/-! ### Any number of insertions -/

/-- However many hosted capabilities are inserted, the list stays sorted, and what was inserted
later comes before what tied with it then. -/
theorem Ranked.foldl_insertHosted {hosts : List (Owned Capability)} (hps : Ranked living ns ps)
    (hhosts : ∀ hosted ∈ hosts, hosted.item.ns = ns) :
    (hosts.foldl (Context.insertHosted living) ps).Perm (hosts.reverse ++ ps) ∧
      Ranked living ns (hosts.foldl (Context.insertHosted living) ps) ∧
      ∀ p, p.item.ns = ns →
        (hosts.foldl (Context.insertHosted living) ps).filter (ties living p) =
          (hosts.reverse ++ ps).filter (ties living p) := by
  induction hosts generalizing ps with
  | nil => exact ⟨.refl ps, hps, fun p _ => rfl⟩
  | cons hosted hosts ih =>
    obtain ⟨hhosted, hhosts⟩ := List.forall_mem_cons.mp hhosts
    obtain ⟨hperm, hranked, hties⟩ := ih (hps.insertHosted hhosted) hhosts
    rw [List.foldl_cons, List.reverse_cons, List.append_assoc, List.singleton_append]
    refine ⟨hperm.trans ?_, hranked, fun p hp => ?_⟩
    · exact (perm_insertHosted living ps hosted).append_left hosts.reverse
    · rw [hties p hp, List.filter_append, hps.filter_insertHosted hhosted hp, List.filter_append]

/-- The providers of a requirement are sorted by preference. -/
theorem ranked_findProviders {objects : Nat → Resource} {context : Context} {r : Requirement}
    (hrepo : Faithful objects context.repository) :
    Ranked living r.ns (context.findProviders living r) where
  ns_eq _ hp := hrepo.ns_eq_of_mem_providers (mem_findProviders.mp hp)
  pairwise := pairwise_findProviders hrepo

/-- A hosted capability is inserted into a sorted list of its namespace so that the list stays
sorted: everything in front of it is preferred to it, and nothing behind it is. So after every
history of a repository, inserting any number of hosted capabilities into the providers of a
requirement, one after the other, gives a sorted list that holds them and the providers. Among
candidates that tie the hosted ones come first, the last inserted one at the very front, and then
the providers as they were found. -/
theorem insertHosted_ranked (living : Nat → Bool) :
    (∀ ns ps hosted, Ranked living ns ps → hosted.item.ns = ns →
      let index := hostedIndex living ps hosted
      let listed := insertHosted living ps hosted
      index ≤ ps.length ∧ listed = ps.take index ++ hosted :: ps.drop index ∧
        Ranked living ns listed ∧
        (∀ p ∈ ps.take index, compare living p hosted = .lt) ∧
        ∀ p ∈ ps.drop index, compare living p hosted ≠ .lt) ∧
    ∀ (config : Config) (objects : Nat → Resource) (calls : List Call) (context : Context)
      (r : Requirement) (hosts : List (Owned Capability)),
      (∀ hosted ∈ hosts, hosted.item.ns = r.ns) →
      let repo := (answers (call objects) (empty config) calls).2
      let found := { context with repository := repo }.findProviders living r
      let listed := hosts.foldl (insertHosted living) found
      listed.Perm (hosts.reverse ++ found) ∧ Ranked living r.ns listed ∧
        ∀ p, p.item.ns = r.ns →
          listed.filter (ties living p) = (hosts.reverse ++ found).filter (ties living p) := by
  constructor
  · intro ns ps hosted hps hhosted index listed
    refine ⟨List.findIdx_le_length, insertHosted_eq living ps hosted, hps.insertHosted hhosted,
      fun p => compare_eq_lt_of_mem_take, fun p hp hlt => ?_⟩
    -- What is preferred to the hosted capability would have to be in front of it.
    refine hps.compare_ne_gt_of_mem_drop hhosted hp ?_
    rw [compare_swap, hlt]
    rfl
  · intro config objects calls context r hosts hhosts repo found listed
    have hrepo : Faithful objects repo := ((faithful_empty objects config).answers_refine calls).2
    exact Ranked.foldl_insertHosted (ranked_findProviders hrepo) hhosts

/-- A requirement that takes every identity. -/
def anyIdentity : Requirement where
  clause := (Resource.identity "acme" Names.bundleKind .zero).clause
  filter := .all

/-- A hosted identity comes before the one that it ties with; and of two that are inserted into the
identities of a repository, the second one comes before the first one, and both come before the one
that they tie with. -/
theorem insertHosted_ranked_identityOf :
    let living := fun _ : Nat => true
    let ps := [identityOf 3 3, identityOf 2 2, identityOf 1 1]
    let objects := fun id => (identityOf id (UInt32.ofNat id)).owner.resource
    let repo := (answers (call objects) (empty {}) [.add 1, .add 2]).2
    let found := (Context.mk repo [] [] {}).findProviders living anyIdentity
    let listed := [identityOf 4 2, identityOf 5 2].foldl (insertHosted living) found
    (hostedIndex living ps (identityOf 4 2) = 1 ∧
      Ranked living Names.identity (insertHosted living ps (identityOf 4 2)) ∧
      compare living (identityOf 3 3) (identityOf 4 2) = .lt ∧
      compare living (identityOf 2 2) (identityOf 4 2) ≠ .lt) ∧
    Ranked living Names.identity listed ∧
      listed.filter (ties living (identityOf 2 2)) =
        ([identityOf 5 2, identityOf 4 2] ++ found).filter (ties living (identityOf 2 2)) := by
  intro living ps objects repo found listed
  have hps : Ranked living Names.identity ps := by
    refine ⟨fun p hp => ?_, by decide +kernel⟩
    simp only [ps, List.mem_cons, List.not_mem_nil, or_false] at hp
    rcases hp with rfl | rfl | rfl <;> rfl
  -- The new identity ties with the second of the three, so that it comes before this one.
  have hindex : hostedIndex living ps (identityOf 4 2) = 1 := by decide +kernel
  obtain ⟨hinsert, hinserts⟩ := insertHosted_ranked living
  obtain ⟨-, -, hranked, hfront, hback⟩ := hinsert Names.identity ps (identityOf 4 2) hps rfl
  rw [hindex] at hfront hback
  obtain ⟨-, hlisted, hties⟩ := hinserts {} objects [.add 1, .add 2] ⟨.empty {}, [], [], {}⟩
    anyIdentity [identityOf 4 2, identityOf 5 2] fun hosted h => by
      rcases List.mem_pair.mp h with rfl | rfl <;> rfl
  exact ⟨⟨hindex, hranked, hfront _ (by simp [ps]), hback _ (by simp [ps])⟩, hlisted,
    hties (identityOf 2 2) rfl⟩

end Context

end BundleWiring
