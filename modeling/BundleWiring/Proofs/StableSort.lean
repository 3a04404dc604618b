/-!
# Stable Sorting by a Comparison

Sorting by a transitive comparison puts no element behind a greater one and leaves elements that tie
in their order. If only equal elements tie, the order in which they were given leaves no trace. On a
given list, only the comparisons among its elements matter.
-/

namespace BundleWiring

open Std

variable {α : Type} {cmp : α → α → Ordering}

/-- Sorting depends only on how the elements of the list compare. -/
theorem mergeSort_congr {le le' : α → α → Bool} {l : List α}
    (h : ∀ a ∈ l, ∀ b ∈ l, le a b = le' a b) : l.mergeSort le = l.mergeSort le' := by
  have hmap := List.map_mergeSort (f := id) h
  rwa [List.map_id, List.map_id] at hmap

section TransCmp

variable [TransCmp cmp]

/-- Of two members one does not come behind the other. -/
theorem isLE_or_isLE (a b : α) : ((cmp a b).isLE || (cmp b a).isLE) = true := by
  have hswap : cmp b a = (cmp a b).swap := OrientedCmp.eq_swap
  rw [hswap]
  cases cmp a b <;> rfl

variable (cmp)

/-- A sorted list has no element behind a greater one. -/
theorem pairwise_mergeSort_isLE (l : List α) :
    (l.mergeSort fun a b => (cmp a b).isLE).Pairwise fun a b => (cmp a b).isLE = true :=
  List.pairwise_mergeSort (fun _ _ _ => TransCmp.isLE_trans) isLE_or_isLE l

/-- Sorting leaves the elements that tie with a given one in their order. -/
theorem filter_mergeSort_isEq (a : α) (l : List α) :
    (l.mergeSort fun a b => (cmp a b).isLE).filter (fun b => (cmp a b).isEq) =
      l.filter fun b => (cmp a b).isEq := by
  -- The ties are sorted already, so that they stand in this order in the sorted list, and no
  -- further ones can stand there.
  have hties : (l.filter fun b => (cmp a b).isEq).Pairwise fun b c => (cmp b c).isLE = true := by
    refine List.pairwise_of_forall_mem_list fun b hb c hc => ?_
    have hab := Ordering.isEq_iff_eq_eq.mp (List.mem_filter.mp hb).2
    have hac := Ordering.isEq_iff_eq_eq.mp (List.mem_filter.mp hc).2
    rw [← TransCmp.congr_left hab, hac]
    rfl
  have hsub := (List.sublist_mergeSort (fun _ _ _ => TransCmp.isLE_trans) isLE_or_isLE hties
    List.filter_sublist).filter fun b => (cmp a b).isEq
  simp only [List.filter_filter, Bool.and_self] at hsub
  exact (hsub.eq_of_length ((List.mergeSort_perm l _).filter _).length_eq.symm).symm

/-- If no different elements tie, a sorted list depends on its members only. -/
theorem mergeSort_eq_of_perm [LawfulEqCmp cmp] {l l' : List α} (h : l.Perm l') :
    (l.mergeSort fun a b => (cmp a b).isLE) = l'.mergeSort fun a b => (cmp a b).isLE := by
  have hperm := (List.mergeSort_perm l fun a b => (cmp a b).isLE).trans
    (h.trans (List.mergeSort_perm l' fun a b => (cmp a b).isLE).symm)
  refine List.Perm.eq_of_pairwise (fun a b _ _ hab hba => ?_) (pairwise_mergeSort_isLE cmp l)
    (pairwise_mergeSort_isLE cmp l') hperm
  exact LawfulEqCmp.eq_of_compare (OrientedCmp.isLE_antisymm hab hba)

end TransCmp

end BundleWiring
